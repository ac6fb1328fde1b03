import KaChatIndexer.KaSample
import KaChatIndexer.KaStatements

/-!
# Profiles

A broadcast replaces the profiles that its statement sees. While nobody else's row appears between
that look and the commit one row is left, the newest; two broadcasts that do not see each other leave
two.
-/
namespace KaChatIndexer.KaProfiles
open ByteStrings KaText KaActions KaStore KaHandlers KaSample KaStatements Interleaving
open Interleaving.Prog

variable {env : Env} {outputs : Bytes → Option (Option (List TxOutput))} {xonly : Bytes}

/-- The row that a broadcast stores. -/
def profile (env : Env) (transaction : Transaction) : Option Broadcast :=
  match transaction.action env with
  | some (.broadcast k) =>
    (hexDecode k.senderPubkey).bind fun sender => (hexDecode k.senderSignature).map fun signature =>
      ⟨transaction.transactionId, transaction.time, sender, signature, k.base64EncodedNickname,
        k.base64EncodedProfileImage, k.base64EncodedMessage⟩
  | _ => none

/-- A valid signed broadcast of the x-only key, in its 02 or its 03 form. -/
def Profiles (env : Env) (xonly : Bytes) (transaction : Transaction) : Prop :=
  ∃ k sender, Acts env transaction (.broadcast k) sender ∧ fromSecond sender = xonly ∧
    (validateKProfile k.base64EncodedNickname k.base64EncodedProfileImage
      k.base64EncodedMessage).isOk = true

def profilesOf (xonly : Bytes) (db : Db) : List Broadcast :=
  db.broadcasts.filter fun b => fromSecond b.senderPubkey = xonly

/-- A broadcast that found nothing newer commits while every other profile of the key is among those
that its statement saw. -/
def Seen : Sql → Db → Prop
  | .broadcastCommit row seen, db =>
      (∃ b ∈ seen, Db.otherProfile row b = true ∧ row.blockTime < b.blockTime) ∨
        ∀ b ∈ db.broadcasts, Db.otherProfile row b = true → b ∈ seen
  | _, _ => True

instance (ev : Sql) (db : Db) : Decidable (Seen ev db) := by
  unfold Seen
  split <;> infer_instance

/-! ## The contract -/

structure Known (env : Env) (xonly : Bytes) (ours : Transaction → Prop) (last : Transaction)
    (db : Db) : Prop where
  rows : ∀ b ∈ profilesOf xonly db, ∃ t, ours t ∧ profile env t = some b
  single : (profilesOf xonly db).length ≤ 1
  others : ∀ b ∈ db.broadcasts, fromSecond b.senderPubkey ≠ xonly → ∀ t, ours t →
    b.transactionId ≠ t.transactionId
  first : ∀ signature, last.signature env = some signature →
    ∀ id ∈ db.broadcastSignatures.lookup signature, id = last.transactionId
  admitted : Admitted env last db

/-- The newest broadcast is the one that stands. -/
def Settled (env : Env) (xonly : Bytes) (last : Transaction) (db : Db) : Prop :=
  profilesOf xonly db = (profile env last).toList

structure Keeps (env : Env) (xonly : Bytes) (ours : Transaction → Prop) (last : Transaction)
    (db db' : Db) : Prop where
  used : ∀ signature first, db.usedBy signature = some first → db'.usedBy signature = some first
  settled : Settled env xonly last db → Settled env xonly last db'
  known : Known env xonly ours last db → Known env xonly ours last db'

def contract (env : Env) (xonly : Bytes) (ours : Transaction → Prop) (last : Transaction) :
    Contract Db Sql Transaction where
  rely := Keeps env xonly ours last
  inv := Known env xonly ours last
  told _ _ _ := True
  refl _ := ⟨fun _ _ => id, id, id⟩
  trans _ _ _ h h' := ⟨fun signature first => h'.used signature first ∘ h.used signature first,
    h'.settled ∘ h.settled, h'.known ∘ h.known⟩
  inv_rely _ _ h := h.known
  told_rely _ _ _ _ _ := id

/-- What is known of the broadcasts of a run. -/
structure Newest (env : Env) (xonly : Bytes) (ours : Transaction → Prop) (last : Transaction) :
    Prop where
  profiles : ∀ t, ours t → Profiles env xonly t
  mine : ours last
  time : ∀ t, ours t → t ≠ last → t.time < last.time
  id : ∀ t u, ours t → ours u → t.transactionId = u.transactionId → t = u
  signature : ∀ t, ours t → t.signature env = last.signature env → t = last

variable {ours : Transaction → Prop} {last transaction : Transaction} {s t : Db}

theorem rely_used (hnewest : Newest env xonly ours last) (h : ours transaction) {signature : Bytes}
    (hsig : transaction.signature env = some signature) :
    (contract env xonly ours last).rely s
      (s.insertUsed signature transaction.transactionId).2 := by
  have htables := tables_insertUsed signature transaction.transactionId s
  have hbroadcasts : (s.insertUsed signature transaction.transactionId).2.broadcasts =
      s.broadcasts := by
    have hequal := congrArg Db.broadcasts htables
    exact hequal
  have hsignatures : (s.insertUsed signature transaction.transactionId).2.broadcastSignatures =
      s.broadcastSignatures := by
    have hequal := congrArg Db.broadcastSignatures htables
    exact hequal
  have hdenylist : (s.insertUsed signature transaction.transactionId).2.kapostsDenylist =
      s.kapostsDenylist := by
    have hequal := congrArg Db.kapostsDenylist htables
    exact hequal
  have hprofiles : profilesOf xonly (s.insertUsed signature transaction.transactionId).2 =
      profilesOf xonly s := by
    rw [profilesOf, hbroadcasts]
    rfl
  refine ⟨fun other first => used_insertUsed_mono other first, hprofiles.trans, fun hknown =>
    ⟨hprofiles ▸ hknown.rows, hprofiles ▸ hknown.single, hbroadcasts ▸ hknown.others,
      hsignatures ▸ hknown.first, ?_⟩⟩
  refine admitted_after hsig (fun heq => ?_) hdenylist rfl hknown.admitted
  exact (hnewest.signature _ h heq.symm).symm

/-! ## The commit of a broadcast -/

theorem profile_of {row : Broadcast} (h : Profiles env xonly transaction)
    (hrow : profile env transaction = some row) :
    row.transactionId = transaction.transactionId ∧ row.blockTime = transaction.time ∧
      transaction.signature env = some row.senderSignature ∧ fromSecond row.senderPubkey = xonly := by
  obtain ⟨k, sender, ⟨haction, text, htext, -, hsender⟩, hxonly, -⟩ := h
  obtain rfl := Option.some.inj htext
  unfold profile at hrow
  rw [haction] at hrow
  obtain ⟨sender', hsender', hrow⟩ := Option.bind_eq_some_iff.mp hrow
  obtain ⟨signature, hsig, rfl⟩ := Option.map_eq_some_iff.mp hrow
  obtain rfl := Option.some.inj (hsender.symm.trans hsender')
  refine ⟨rfl, rfl, ?_, hxonly⟩
  rw [Transaction.signature, haction]
  exact hsig

theorem profile_exists (h : Profiles env xonly transaction) :
    ∃ row, profile env transaction = some row := by
  obtain ⟨k, sender, ⟨haction, text, htext, hverify, hsender⟩, -, -⟩ := h
  obtain rfl := Option.some.inj htext
  obtain ⟨signature, -, hsig, -⟩ := verify_decodes hverify
  have hsig' : hexDecode k.senderSignature = some signature := hsig
  refine ⟨⟨transaction.transactionId, transaction.time, sender, signature, k.base64EncodedNickname,
    k.base64EncodedProfileImage, k.base64EncodedMessage⟩, ?_⟩
  unfold profile
  rw [haction]
  simp only [hsender, hsig', Option.bind_some, Option.map_some]

theorem mem_profilesOf {db : Db} {b : Broadcast} :
    b ∈ profilesOf xonly db ↔ b ∈ db.broadcasts ∧ fromSecond b.senderPubkey = xonly := by
  rw [profilesOf, List.mem_filter, decide_eq_true_iff]

/-- What the statement of a broadcast has seen. -/
theorem replaced_spec {row : Broadcast} (seen : Db) (hxonly : fromSecond row.senderPubkey = xonly) :
    seen.replacedProfiles row = none ∧
        (∃ b ∈ profilesOf xonly seen, Db.otherProfile row b = true ∧ row.blockTime < b.blockTime) ∨
      (∃ ids, seen.replacedProfiles row = some ids ∧
        ∀ b ∈ profilesOf xonly seen, Db.otherProfile row b = true →
          b.transactionId ∈ ids ∧ b.blockTime ≤ row.blockTime) := by
  unfold Db.replacedProfiles
  have hkey {b : Broadcast} (h : Db.otherProfile row b = true) :
      fromSecond b.senderPubkey = xonly := (of_decide_eq_true h).1.trans hxonly
  split
  · next h =>
    obtain ⟨b, hb, hnewer⟩ := List.any_eq_true.mp h
    obtain ⟨hother, htime⟩ := of_decide_eq_true hnewer
    exact .inl ⟨rfl, b, mem_profilesOf.mpr ⟨hb, hkey hother⟩, hother, htime⟩
  · next h =>
    refine .inr ⟨_, rfl, fun b hb hother => ?_⟩
    have hmem := (mem_profilesOf.mp hb).1
    refine ⟨List.mem_map_of_mem (List.mem_filter.mpr ⟨hmem, hother⟩), not_lt.mp fun htime => h ?_⟩
    exact List.any_eq_true.mpr ⟨b, hmem, decide_eq_true ⟨hother, htime⟩⟩

section
variable {row : Broadcast} {ids : List Bytes}

/-- A broadcast that deletes every other profile of its key leaves its own alone. -/
theorem profilesOf_replace (hnewest : Newest env xonly ours last) (h : ours transaction)
    (hrow : profile env transaction = some row) (hknown : Known env xonly ours last t)
    (hall : ∀ b ∈ profilesOf xonly t, Db.otherProfile row b = true → b.transactionId ∈ ids) :
    profilesOf xonly (t.commitBroadcast row (some ids)) = [row] := by
  obtain ⟨hid, htime, hsig, hxonly⟩ := profile_of (hnewest.profiles _ h) hrow
  have hbroadcasts : (t.recordBroadcastSignature row.senderSignature row.transactionId).broadcasts =
      t.broadcasts := by
    unfold Db.recordBroadcastSignature
    split <;> rfl
  let rows := t.broadcasts.filter fun b => b.transactionId ∉ ids
  have hsame (b : Broadcast) (hb : b ∈ rows.filter fun b => fromSecond b.senderPubkey = xonly) :
      b = row := by
    obtain ⟨hb, hkey⟩ := List.mem_filter.mp hb
    obtain ⟨hmem, hout⟩ := List.mem_filter.mp hb
    have hprofile := mem_profilesOf.mpr ⟨hmem, of_decide_eq_true hkey⟩
    have hown : b.transactionId = row.transactionId := by
      by_contra hne
      refine of_decide_eq_true hout (hall b hprofile ?_)
      exact decide_eq_true ⟨(of_decide_eq_true hkey).trans hxonly.symm, hne⟩
    obtain ⟨u, hu, hub⟩ := hknown.rows b hprofile
    have huid := (profile_of (hnewest.profiles u hu) hub).1
    obtain rfl := hnewest.id u transaction hu h (huid.symm.trans (hown.trans hid))
    exact Option.some.inj (hub.symm.trans hrow)
  have hlength : (rows.filter fun b => fromSecond b.senderPubkey = xonly).length ≤ 1 := by
    have hcomm : (rows.filter fun b => fromSecond b.senderPubkey = xonly) =
        (profilesOf xonly t).filter fun b => b.transactionId ∉ ids := List.filter_comm ..
    rw [hcomm]
    exact (List.length_filter_le _ _).trans hknown.single
  unfold Db.commitBroadcast
  simp only [hbroadcasts]
  split
  · next hany =>
    obtain ⟨b, hb, hown⟩ := List.any_eq_true.mp hany
    have hkey : fromSecond b.senderPubkey = xonly := by
      by_contra hne
      exact hknown.others b (List.mem_of_mem_filter hb) hne transaction h
        ((of_decide_eq_true hown).trans hid)
    have hmem : b ∈ rows.filter fun b => fromSecond b.senderPubkey = xonly :=
      List.mem_filter.mpr ⟨hb, decide_eq_true hkey⟩
    obtain rfl := hsame b hmem
    obtain ⟨c, hc⟩ := List.length_eq_one_iff.mp (le_antisymm hlength (List.length_pos_of_mem hmem))
    have hbc : b = c := by
      rw [hc] at hmem
      exact List.mem_singleton.mp hmem
    exact hbc ▸ hc
  · next hnone =>
    have hempty : (rows.filter fun b => fromSecond b.senderPubkey = xonly) = [] := by
      refine List.eq_nil_iff_forall_not_mem.mpr fun b hb => hnone ?_
      refine List.any_eq_true.mpr ⟨b, List.mem_of_mem_filter hb, decide_eq_true ?_⟩
      rw [hsame b hb]
    simp only [profilesOf, List.filter_append]
    rw [show t.broadcasts.filter (fun b => b.transactionId ∉ ids) = rows from rfl, hempty]
    simp [hxonly]

theorem commit_frame (row : Broadcast) (replaced : Option (List Bytes)) (db : Db) :
    (db.commitBroadcast row replaced).usedSignatures = db.usedSignatures ∧
      (db.commitBroadcast row replaced).kapostsDenylist = db.kapostsDenylist ∧
      (db.commitBroadcast row replaced).broadcastSignatures =
        (db.recordBroadcastSignature row.senderSignature row.transactionId).broadcastSignatures ∧
      ∀ b ∈ (db.commitBroadcast row replaced).broadcasts, b ∈ db.broadcasts ∨ b = row := by
  have hrecord : (db.recordBroadcastSignature row.senderSignature row.transactionId).usedSignatures =
        db.usedSignatures ∧
      (db.recordBroadcastSignature row.senderSignature row.transactionId).kapostsDenylist =
        db.kapostsDenylist ∧
      (db.recordBroadcastSignature row.senderSignature row.transactionId).broadcasts =
        db.broadcasts := by
    unfold Db.recordBroadcastSignature
    split <;> exact ⟨rfl, rfl, rfl⟩
  obtain ⟨hused, hdenylist, hbroadcasts⟩ := hrecord
  cases replaced with
  | none => exact ⟨hused, hdenylist, rfl, fun b hb => .inl (hbroadcasts ▸ hb)⟩
  | some ids =>
    refine ⟨hused, hdenylist, rfl, fun b hb => ?_⟩
    simp only [Db.commitBroadcast, hbroadcasts] at hb
    split at hb
    · exact .inl (List.mem_of_mem_filter hb)
    · exact (List.mem_append.mp hb).imp List.mem_of_mem_filter List.mem_singleton.mp

/-- What a commit says of other rows, signatures and the newest broadcast. -/
theorem known_commit (hnewest : Newest env xonly ours last) (h : ours transaction)
    (hrow : profile env transaction = some row) (replaced : Option (List Bytes))
    (hknown : Known env xonly ours last t)
    (hrows : ∀ b ∈ profilesOf xonly (t.commitBroadcast row replaced),
      ∃ u, ours u ∧ profile env u = some b)
    (hsingle : (profilesOf xonly (t.commitBroadcast row replaced)).length ≤ 1) :
    Known env xonly ours last (t.commitBroadcast row replaced) := by
  obtain ⟨hid, -, hsig, hxonly⟩ := profile_of (hnewest.profiles _ h) hrow
  obtain ⟨hused, hdenylist, hsignatures, hmem⟩ := commit_frame row replaced t
  refine ⟨hrows, hsingle, fun b hb hne => ?_, fun signature hlast id hlook => ?_,
    fun text htext => ?_, fun signature hlast first hlook => ?_⟩
  · rcases hmem b hb with hb | rfl
    · exact hknown.others b hb hne
    · exact absurd hxonly hne
  · rw [hsignatures] at hlook
    unfold Db.recordBroadcastSignature at hlook
    split at hlook
    · exact hknown.first signature hlast id hlook
    · rcases eq_or_ne signature row.senderSignature with rfl | hne
      · obtain rfl := hnewest.signature _ h (hsig.trans hlast.symm)
        simp at hlook
        exact hlook.symm.trans hid
      · refine hknown.first signature hlast id ?_
        simpa [List.lookup_cons, beq_eq_false_iff_ne.mpr hne] using hlook
  · exact (congrArg (fun l => l.contains (toAsciiLowercase text)) hdenylist).trans
      (hknown.admitted.allowed text htext)
  · exact hknown.admitted.owned signature hlast first
      ((congrArg (·.lookup signature) hused).symm.trans hlook)

/-- A broadcast commits by what its statement saw. -/
theorem rely_commit {seen : Db} (hnewest : Newest env xonly ours last) (h : ours transaction)
    (hrow : profile env transaction = some row) (hseen : Known env xonly ours last seen)
    (hknown : Known env xonly ours last t)
    (hmay : Seen (.broadcastCommit row (profilesOf xonly seen)) t) :
    (contract env xonly ours last).rely t (t.commitBroadcast row (seen.replacedProfiles row)) ∧
      (transaction = last →
        Settled env xonly last (t.commitBroadcast row (seen.replacedProfiles row))) := by
  obtain ⟨hid, htime, -, hxonly⟩ := profile_of (hnewest.profiles _ h) hrow
  obtain ⟨hused, -, -, -⟩ := commit_frame row (seen.replacedProfiles row) t
  have husedBy (signature first : Bytes) (hfirst : t.usedBy signature = some first) :
      (t.commitBroadcast row (seen.replacedProfiles row)).usedBy signature = some first :=
    (congrArg (·.lookup signature) hused).trans hfirst
  rcases replaced_spec seen hxonly with
    ⟨hnone, b, hb, hother, hnewer⟩ | ⟨ids, hids, hspec⟩
  · -- a newer profile stands: nothing is written
    have hsame : profilesOf xonly (t.commitBroadcast row (seen.replacedProfiles row)) =
        profilesOf xonly t := by
      have hbroadcasts : (t.commitBroadcast row none).broadcasts = t.broadcasts := by
        simp only [Db.commitBroadcast, Db.recordBroadcastSignature]
        split <;> rfl
      rw [hnone, profilesOf, hbroadcasts]
      rfl
    refine ⟨⟨husedBy, hsame.trans, fun _ => known_commit hnewest h hrow _ hknown
      (hsame ▸ hknown.rows) (hsame ▸ hknown.single)⟩, ?_⟩
    rintro rfl
    obtain ⟨u, hu, hub⟩ := hseen.rows b hb
    obtain ⟨huid, hutime, -⟩ := profile_of (hnewest.profiles u hu) hub
    have hne : u ≠ transaction := by
      rintro rfl
      exact (of_decide_eq_true hother).2 (huid.trans hid.symm)
    have hlt := hnewest.time u hu hne
    omega
  · have hall (b : Broadcast) (hb : b ∈ profilesOf xonly t) (hother : Db.otherProfile row b = true) :
        b ∈ profilesOf xonly seen := by
      rcases hmay with ⟨c, hc, hcother, hcnewer⟩ | hmay
      · exact absurd hcnewer (not_lt.mpr (hspec c hc hcother).2)
      · exact hmay b (mem_profilesOf.mp hb).1 hother
    have hafter : profilesOf xonly (t.commitBroadcast row (seen.replacedProfiles row)) = [row] := by
      rw [hids]
      exact profilesOf_replace hnewest h hrow hknown fun b hb hother =>
        (hspec b (hall b hb hother) hother).1
    have hsettled (hlast : transaction = last) :
        Settled env xonly last (t.commitBroadcast row (seen.replacedProfiles row)) := by
      rw [Settled, hafter, ← hlast, hrow]
      rfl
    refine ⟨⟨husedBy, fun hstood => hsettled ?_, fun _ => known_commit hnewest h hrow _ hknown
      (fun b hb => ?_) (by simp [hafter])⟩, hsettled⟩
    · by_contra hne
      obtain ⟨b, hb⟩ := profile_exists (hnewest.profiles _ hnewest.mine)
      obtain ⟨hbid, hbtime, -, hbxonly⟩ := profile_of (hnewest.profiles _ hnewest.mine) hb
      have hmem : b ∈ profilesOf xonly t := by
        rw [hstood, hb]
        exact List.mem_singleton_self b
      have hother : Db.otherProfile row b = true := by
        refine decide_eq_true ⟨hbxonly.trans hxonly.symm, fun heq => hne ?_⟩
        exact hnewest.id _ _ h hnewest.mine (hid.symm.trans (heq.symm.trans hbid))
      have hle := (hspec b (hall b hmem hother) hother).2
      have hlt := hnewest.time _ h hne
      omega
    · rw [hafter] at hb
      obtain rfl := List.mem_singleton.mp hb
      exact ⟨transaction, h, hrow⟩

end

/-! ## Every run -/

section
variable (hnewest : Newest env xonly ours last) (h : ours transaction)
include hnewest h

theorem store_safe {row : Broadcast} (hrow : profile env transaction = some row) :
    (contract env xonly ours last).Safe Seen transaction
      (fun _ t => transaction = last → Settled env xonly last t) (storeBroadcast row) s := by
  obtain ⟨hid, -, hsig, hxonly⟩ := profile_of (hnewest.profiles _ h) hrow
  refine .query_bind fun t _ hinv _ => ⟨trivial, ?_⟩
  split
  · next hreplay =>
    intro u _ _ hlast
    subst hlast
    unfold Db.broadcastReplay at hreplay
    cases hlook : t.broadcastSignatures.lookup row.senderSignature with
    | none =>
      rw [hlook] at hreplay
      cases hreplay
    | some id =>
      rw [hlook] at hreplay
      exact (of_decide_eq_true hreplay ((hinv.first _ hsig id hlook).trans hid.symm)).elim
  · refine .query_bind fun seen _ hseen _ => ⟨trivial, ?_⟩
    intro u _ hinvu hmay
    have hsame : (seen.broadcasts.filter fun b =>
        fromSecond b.senderPubkey = fromSecond row.senderPubkey) = profilesOf xonly seen := by
      rw [hxonly]
      rfl
    obtain ⟨hrely, hsettled⟩ := rely_commit hnewest h hrow hseen hinvu (hsame ▸ hmay)
    exact ⟨hrely, trivial, fun v huv _ hlast => huv.settled (hsettled hlast)⟩

theorem process_safe : (contract env xonly ours last).Safe Seen transaction
    (fun _ t => transaction = last → Settled env xonly last t)
    (processKTransaction env outputs transaction) s := by
  have hprofiles := hnewest.profiles _ h
  obtain ⟨row, hrow⟩ := profile_exists hprofiles
  have hstored := hrow
  obtain ⟨k, sender, ⟨haction, text, htext, hverify, hsender⟩, -, hvalid⟩ := hprofiles
  obtain rfl := Option.some.inj htext
  obtain ⟨signature, -, hsig, -⟩ := verify_decodes hverify
  have hsig' : hexDecode k.senderSignature = some signature := hsig
  have hsigned : transaction.signature env = some signature := by
    rw [Transaction.signature, haction]
    exact hsig
  obtain ⟨own, hown, hlastId⟩ : ∃ own : Bytes × Bytes, last.signature env = some own.1 ∧
      last.transactionId = own.2 := by
    obtain ⟨b, hb⟩ := profile_exists (hnewest.profiles _ hnewest.mine)
    exact ⟨(b.senderSignature, last.transactionId),
      (profile_of (hnewest.profiles _ hnewest.mine) hb).2.2.1, rfl⟩
  unfold profile at hrow
  rw [haction] at hrow
  simp only [hsender, hsig', Option.bind_some, Option.map_some, Option.some_inj] at hrow
  have hcheck (t : Db) : (contract env xonly ours last).Safe Seen transaction
      (fun b _ => transaction = last → b = true) (checkSignature env (KAction.broadcast k).signingString
        (KAction.broadcast k).senderSignature k.senderPubkey transaction) t := by
    refine check_mine haction hverify ?_ ?_ (fun _ _ => trivial)
      (fun u hu => hlastId ▸ hu.admitted.owned own.1 hown)
      (fun _ _ first htu => htu.used own.1 first) fun sig u hsig _ => rely_used hnewest h hsig
    · rintro rfl
      exact hown
    · intro hequal
      rw [hnewest.signature _ h (hequal.trans hown.symm), hlastId]
  unfold processKTransaction isKapostsDenied
  simp only [haction]
  refine .query_bind fun t _ hinv _ => ⟨trivial, ?_⟩
  split
  · next hdenied =>
    intro u _ _ hlast
    subst hlast
    rw [hinv.admitted.allowed k.senderPubkey (by rw [haction]; rfl)] at hdenied
    cases hdenied
  · show (contract env xonly ours last).Safe Seen transaction _
      (saveKBroadcastToDatabase env transaction k) t
    unfold saveKBroadcastToDatabase
    rw [if_neg (by simpa using hvalid)]
    refine (hcheck t).bind fun fresh u _ hfresh => ?_
    split
    · next hstale =>
      intro v _ _ hlast
      rw [hfresh hlast] at hstale
      cases hstale
    · simp only [hsender, hsig']
      rw [hrow]
      exact store_safe hnewest h hstored

end

/-- The key has no profile yet, and the newest broadcast is let in. -/
structure Start (env : Env) (xonly : Bytes) (ours : Transaction → Prop) (last : Transaction)
    (db : Db) : Prop where
  none : profilesOf xonly db = []
  others : ∀ b ∈ db.broadcasts, ∀ t, ours t → b.transactionId ≠ t.transactionId
  unused : ∀ signature, last.signature env = some signature →
    db.broadcastSignatures.lookup signature = Option.none
  admitted : Admitted env last db

/-- Once the newest broadcast has been processed its row is the key's only one, and stays so, in
every run whose broadcasts have seen the others' when they commit. -/
theorem newest_profile_stands (hnewest : Newest env xonly ours last)
    (hstart : Start env xonly ours last s) {w : World Db Sql Transaction}
    (hw : (workers env outputs ours Seen).Reaches s w) (hdone : w.Processed last) :
    ∃ row, profile env last = some row ∧ profilesOf xonly w.state = [row] := by
  have hknown : Known env xonly ours last s := by
    refine ⟨?_, by simp [hstart.none], fun b hb _ => hstart.others b hb, fun sig hsig id hid => ?_,
      hstart.admitted⟩
    · rw [hstart.none]
      exact fun _ hb => absurd hb List.not_mem_nil
    · rw [hstart.unused sig hsig] at hid
      cases hid
  obtain ⟨-, hinv, -, hall⟩ := hw.safe (contract env xonly ours last) hknown
    fun transaction t h _ => process_safe hnewest h
  have hsettled := hall _ hdone _ ((contract env xonly ours last).refl _) hinv rfl
  obtain ⟨row, hrow⟩ := profile_exists (hnewest.profiles _ hnewest.mine)
  exact ⟨row, hrow, by rw [hsettled, hrow]; rfl⟩

/-! ## Two broadcasts at once -/

def samplePerson : Bytes := List.replicate 32 0x11

def sampleOlder : Transaction :=
  sample 1 5 ["broadcast".toList, sampleKey '2' '1', sampleSignature 'b', "eHh4".toList, [],
    "eHh4".toList]

def sampleNewer : Transaction :=
  sample 2 6 ["broadcast".toList, sampleKey '3' '1', sampleSignature 'c', "eHh4".toList, [],
    "eHh4".toList]

theorem sampleOlder_profiles : Profiles sampleEnv samplePerson sampleOlder :=
  ⟨⟨sampleKey '2' '1', sampleSignature 'b', "eHh4".toList, none, "eHh4".toList⟩, 2 :: samplePerson,
    ⟨by decide +kernel, _, rfl, by decide +kernel, by decide +kernel⟩, rfl, by decide +kernel⟩

theorem sampleNewer_profiles : Profiles sampleEnv samplePerson sampleNewer :=
  ⟨⟨sampleKey '3' '1', sampleSignature 'c', "eHh4".toList, none, "eHh4".toList⟩, 3 :: samplePerson,
    ⟨by decide +kernel, _, rfl, by decide +kernel, by decide +kernel⟩, rfl, by decide +kernel⟩

theorem sample_newest :
    Newest sampleEnv samplePerson (· ∈ [sampleOlder, sampleNewer]) sampleNewer where
  profiles t h := by
    rcases List.mem_cons.mp h with rfl | h
    · exact sampleOlder_profiles
    · obtain rfl := List.mem_singleton.mp h
      exact sampleNewer_profiles
  mine := by simp
  time := by
    show ∀ t ∈ [sampleOlder, sampleNewer], t ≠ sampleNewer → t.time < sampleNewer.time
    decide +kernel
  id := by
    have hids : ∀ t ∈ [sampleOlder, sampleNewer], ∀ u ∈ [sampleOlder, sampleNewer],
        t.transactionId = u.transactionId → t = u := by decide +kernel
    exact fun t u ht hu => hids t ht u hu
  signature := by
    show ∀ t ∈ [sampleOlder, sampleNewer], t.signature sampleEnv = sampleNewer.signature sampleEnv →
      t = sampleNewer
    decide +kernel

theorem sample_start :
    Start sampleEnv samplePerson (· ∈ [sampleOlder, sampleNewer]) sampleNewer Db.empty :=
  ⟨rfl, fun _ h => absurd h List.not_mem_nil, fun _ _ => rfl,
    fun _ _ => rfl, fun _ _ => owned_of_unused rfl⟩

/-- The older broadcast has looked when the whole newer one comes in between. -/
def overlap : List (Act Transaction) :=
  [.deliver sampleOlder, .deliver sampleNewer] ++ statements [(0, 6), (1, 7), (0, 1)]

theorem overlap_runs : ∃ w, run (processKTransaction sampleEnv noOutputs) (fun _ _ _ => true)
    overlap (.start Db.empty) = some w ∧ w.jobs.all (·.2.ended) = true ∧
    w.jobs.map Prod.fst = [sampleOlder, sampleNewer] ∧
    (profilesOf samplePerson w.state).length = 2 := by
  have h : ((run (processKTransaction sampleEnv noOutputs) (fun _ _ _ => true) overlap
      (.start Db.empty)).map fun w => (w.jobs.all (·.2.ended) : Bool) &&
        (decide (w.jobs.map Prod.fst = [sampleOlder, sampleNewer]) &&
          decide ((profilesOf samplePerson w.state).length = 2))) = some true := by
    decide +kernel
  obtain ⟨w, hw, hall⟩ := Option.map_eq_some_iff.mp h
  obtain ⟨hended, hrest⟩ := Bool.and_eq_true_iff.mp hall
  obtain ⟨hjobs, hrows⟩ := Bool.and_eq_true_iff.mp hrest
  exact ⟨w, hw, hended, of_decide_eq_true hjobs, of_decide_eq_true hrows⟩

/-- Everything is processed, and the key has two profiles. -/
theorem two_profiles_stand :
    Newest sampleEnv samplePerson (· ∈ [sampleOlder, sampleNewer]) sampleNewer ∧
    Start sampleEnv samplePerson (· ∈ [sampleOlder, sampleNewer]) sampleNewer Db.empty ∧
    ∃ w, (workers sampleEnv noOutputs (· ∈ [sampleOlder, sampleNewer]) (fun _ _ => True)).Reaches
        Db.empty w ∧ w.Quiet ∧ w.Processed sampleOlder ∧ w.Processed sampleNewer ∧
      (profilesOf samplePerson w.state).length = 2 := by
  obtain ⟨w, hw, hended, hjobs, hrows⟩ := overlap_runs
  have hquiet := World.quiet_of_ended hended
  have hreaches : (workers sampleEnv noOutputs (· ∈ [sampleOlder, sampleNewer])
      (fun _ _ => True)).Reaches Db.empty w := by
    refine .run .start (fun i hi => ?_) (fun _ _ _ _ => trivial) hw
    show i ∈ [sampleOlder, sampleNewer]
    simpa [overlap, statements] using hi
  exact ⟨sample_newest, sample_start, w, hreaches, hquiet, hquiet.processed (hjobs ▸ by simp),
    hquiet.processed (hjobs ▸ by simp), hrows⟩

/-- The older broadcast looks when the newer one has committed. -/
def interleaved : List (Act Transaction) :=
  [.deliver sampleNewer, .deliver sampleOlder] ++ statements [(0, 5), (1, 5), (0, 2), (1, 2)]

theorem interleaved_runs : ∃ w, run (processKTransaction sampleEnv noOutputs)
    (fun _ ev db => decide (Seen ev db)) interleaved (.start Db.empty) = some w ∧
    w.jobs.all (·.2.ended) = true ∧ w.jobs.map Prod.fst = [sampleNewer, sampleOlder] := by
  have h : ((run (processKTransaction sampleEnv noOutputs) (fun _ ev db => decide (Seen ev db))
      interleaved (.start Db.empty)).map fun w => (w.jobs.all (·.2.ended) : Bool) &&
        decide (w.jobs.map Prod.fst = [sampleNewer, sampleOlder])) = some true := by
    decide +kernel
  obtain ⟨w, hw, hall⟩ := Option.map_eq_some_iff.mp h
  obtain ⟨hended, hjobs⟩ := Bool.and_eq_true_iff.mp hall
  exact ⟨w, hw, hended, of_decide_eq_true hjobs⟩

theorem newer_profile_stands : ∃ w,
    (workers sampleEnv noOutputs (· ∈ [sampleOlder, sampleNewer]) Seen).Reaches Db.empty w ∧
    w.Quiet ∧ w.Processed sampleOlder ∧
    ∃ row, profile sampleEnv sampleNewer = some row ∧ profilesOf samplePerson w.state = [row] := by
  obtain ⟨w, hw, hended, hjobs⟩ := interleaved_runs
  have hquiet := World.quiet_of_ended hended
  have hreaches : (workers sampleEnv noOutputs (· ∈ [sampleOlder, sampleNewer]) Seen).Reaches
      Db.empty w := by
    refine .run .start (fun i hi => ?_) (fun _ ev db h => of_decide_eq_true (p := Seen ev db) h) hw
    show i ∈ [sampleOlder, sampleNewer]
    simpa [interleaved, statements, or_comm] using hi
  exact ⟨w, hreaches, hquiet, hquiet.processed (hjobs ▸ by simp),
    newest_profile_stands sample_newest sample_start hreaches (hquiet.processed (hjobs ▸ by simp))⟩

end KaChatIndexer.KaProfiles
