import KaChatIndexer.KaSample
import KaChatIndexer.KaStatements

/-!
# Follows and blocks

An action asks whether it is the newest for its pair, and writes afterwards. While every write still
is the newest when it runs, the relation stands exactly when the newest action says so; an older
write that comes after a newer one has finished undoes it.
-/
namespace KaChatIndexer.KaRelations
open ByteStrings KaText KaActions KaStore KaHandlers KaSample KaStatements Interleaving
open Interleaving.Prog

variable {env : Env} {outputs : Bytes → Option (Option (List TxOutput))} {kind : RelationKind}
  {sender target : Bytes}

/-- The row of a pair: the sender's relation to the x-only target. -/
def Linked (kind : RelationKind) (sender target : Bytes) (db : Db) : Prop :=
  ∃ r ∈ db.relations kind, Db.relates sender target r = true

/-- The block time of the newest action of the pair. -/
def lastTime (kind : RelationKind) (sender target : Bytes) (db : Db) : Option ℤ :=
  (db.relationLast.find? (Db.isLast kind sender target)).map (·.blockTime)

/-! ## The statements on a pair -/

theorem isLast_congr {target' : Bytes} (h : fromSecond target' = fromSecond target) :
    Db.isLast kind sender target' = Db.isLast kind sender target := by
  unfold Db.isLast
  rw [h]

theorem relates_congr {target' : Bytes} (h : fromSecond target' = fromSecond target) :
    Db.relates sender target' = Db.relates sender target := by
  unfold Db.relates
  rw [h]

/-- Asking records the action unless a newer one is known. -/
theorem upsert_spec (kind : RelationKind) (sender target : Bytes) (action : Text) (time : ℤ)
    (db : Db) :
    (∀ last, lastTime kind sender target db = some last → last ≤ time) ∧
        (db.upsertRelationLast kind sender target action time).1 = true ∧
        lastTime kind sender target (db.upsertRelationLast kind sender target action time).2 =
          some time ∨
      (∃ last, lastTime kind sender target db = some last ∧ time < last) ∧
        db.upsertRelationLast kind sender target action time = (false, db) := by
  unfold Db.upsertRelationLast lastTime
  cases h : db.relationLast.find? (Db.isLast kind sender target) with
  | none =>
    refine .inl ⟨nofun, rfl, ?_⟩
    simp [List.find?_append, h, Db.isLast]
  | some last =>
    by_cases htime : last.blockTime ≤ time
    · refine .inl ⟨fun l hl => Option.some.inj hl ▸ htime, by simp [htime], ?_⟩
      have hmatch := List.find?_some h
      let renew (r : RelationLast) : RelationLast :=
        if Db.isLast kind sender target r then { r with action := action, blockTime := time } else r
      have hsame : Db.isLast kind sender target ∘ renew = Db.isLast kind sender target := by
        funext r
        simp only [Function.comp_apply, renew]
        split <;> rfl
      have hfind : (db.relationLast.map renew).find? (Db.isLast kind sender target) =
          some (renew last) := by
        rw [List.find?_map, hsame, h]
        rfl
      simp only [if_pos htime]
      rw [hfind]
      simp [renew, hmatch]
    · refine .inr ⟨⟨last.blockTime, rfl, by omega⟩, ?_⟩
      simp [htime]

theorem mem_setRelations {rows : List Relation} {db : Db} :
    (db.setRelations kind rows).relations kind = rows := if_pos rfl

/-- After the insert the relation stands. -/
theorem linked_insert (kind : RelationKind) (row : Relation) (db : Db) :
    Linked kind row.senderPubkey row.targetPubkey (db.insertRelation kind row) := by
  unfold Db.insertRelation
  split
  · next h =>
    obtain ⟨r, hr, hrelates⟩ := List.any_eq_true.mp h
    exact ⟨r, hr, hrelates⟩
  · refine ⟨row, ?_, by simp [Db.relates]⟩
    rw [mem_setRelations]
    exact List.mem_append_right _ (List.mem_singleton_self row)

theorem mem_insert (row : Relation) (db : Db) (r : Relation)
    (h : r ∈ (db.insertRelation kind row).relations kind) : r ∈ db.relations kind ∨ r = row := by
  unfold Db.insertRelation at h
  split at h
  · exact .inl h
  · rw [mem_setRelations] at h
    exact (List.mem_append.mp h).imp_right List.mem_singleton.mp

theorem mem_delete (kind : RelationKind) (sender target : Bytes) (time : ℤ) (db : Db)
    (r : Relation) :
    r ∈ (db.deleteRelation kind sender target time).relations kind ↔
      r ∈ db.relations kind ∧ ¬ (Db.relates sender target r = true ∧ r.blockTime ≤ time) := by
  unfold Db.deleteRelation
  rw [mem_setRelations, List.mem_filter, decide_eq_true_iff]

/-! ## The contract -/

/-- The newest action of a pair: whether it asks for the relation, its block time, and its signature
with its transaction. -/
structure Newest where
  on : Prop
  time : ℤ
  own : Bytes × Bytes

/-- The newest action is in effect. -/
def Settled (kind : RelationKind) (sender target : Bytes) (newest : Newest) (db : Db) : Prop :=
  lastTime kind sender target db = some newest.time ∧ (Linked kind sender target db ↔ newest.on)

/-- No spelling of the key is on the denylist. -/
def Allowed (sender : Bytes) (db : Db) : Prop :=
  ∀ text ∈ db.kapostsDenylist, hexDecode text ≠ some sender

structure Known (kind : RelationKind) (sender target : Bytes) (newest : Newest) (db : Db) :
    Prop where
  times : ∀ r ∈ db.relations kind, Db.relates sender target r = true →
    ∃ last, lastTime kind sender target db = some last ∧ r.blockTime ≤ last
  bound : ∀ last, lastTime kind sender target db = some last → last ≤ newest.time
  owned : Owned newest.own.1 newest.own.2 db
  allowed : Allowed sender db
  related : kind = .follow → newest.on → db.kachatRelated sender target = true

structure Keeps (kind : RelationKind) (sender target : Bytes) (newest : Newest) (db db' : Db) :
    Prop where
  used : ∀ first, db.usedBy newest.own.1 = some first → db'.usedBy newest.own.1 = some first
  top : lastTime kind sender target db = some newest.time →
    lastTime kind sender target db' = some newest.time
  settled : Settled kind sender target newest db → Settled kind sender target newest db'

variable {newest : Newest}

def contract (kind : RelationKind) (sender target : Bytes) (newest : Newest) :
    Contract Db Sql Transaction where
  rely s t := Keeps kind sender target newest s t ∧
    (Known kind sender target newest s → Known kind sender target newest t)
  inv := Known kind sender target newest
  told _ _ _ := True
  refl _ := ⟨⟨fun _ => id, id, id⟩, id⟩
  trans _ _ _ h h' := ⟨⟨fun first => h'.1.used first ∘ h.1.used first, h'.1.top ∘ h.1.top,
    h'.1.settled ∘ h.1.settled⟩, h'.2 ∘ h.2⟩
  inv_rely _ _ h := h.2
  told_rely _ _ _ _ _ := id

/-! ## Every statement keeps to the contract -/

section
variable {s t : Db}

/-- What does not write the pair's rows. -/
theorem rely_of_same (hlast : t.relationLast = s.relationLast)
    (hlinked : ∀ r, Db.relates sender target r = true →
      (r ∈ t.relations kind ↔ r ∈ s.relations kind))
    (hused : ∀ first, s.usedBy newest.own.1 = some first → t.usedBy newest.own.1 = some first)
    (howned : Owned newest.own.1 newest.own.2 s → Owned newest.own.1 newest.own.2 t)
    (hallowed : Allowed sender s → Allowed sender t)
    (hrelated : kind = .follow → s.kachatRelated sender target = true →
      t.kachatRelated sender target = true) :
    (contract kind sender target newest).rely s t := by
  have htime : lastTime kind sender target t = lastTime kind sender target s := by
    unfold lastTime
    rw [hlast]
  have hlink : Linked kind sender target t ↔ Linked kind sender target s :=
    exists_congr fun r => and_congr_left fun hr => hlinked r hr
  refine ⟨⟨hused, fun h => htime.trans h, fun h => ⟨htime.trans h.1, hlink.trans h.2⟩⟩, fun h =>
    ⟨fun r hr hrelates => ?_, fun last hlast => h.bound last (htime ▸ hlast), howned h.owned,
      hallowed h.allowed, fun hk hon => hrelated hk (h.related hk hon)⟩⟩
  rw [htime]
  exact h.times r ((hlinked r hrelates).mp hr) hrelates

theorem rely_newest {key : Bytes} {action : Text} {time : ℤ}
    (hkey : fromSecond key = fromSecond target) (htime : time ≤ newest.time) :
    (contract kind sender target newest).rely s
      (s.upsertRelationLast kind sender key action time).2 := by
  have hsame : lastTime kind sender key = lastTime kind sender target := by
    funext db
    unfold lastTime
    rw [isLast_congr hkey]
  have hspec := upsert_spec kind sender key action time s
  rw [hsame] at hspec
  rcases hspec with ⟨hle, -, hlast⟩ | ⟨-, heq⟩
  · have hrest : ((s.upsertRelationLast kind sender key action time).2.relations,
        (s.upsertRelationLast kind sender key action time).2.usedSignatures,
        (s.upsertRelationLast kind sender key action time).2.kapostsDenylist,
        (s.upsertRelationLast kind sender key action time).2.contents) =
        (s.relations, s.usedSignatures, s.kapostsDenylist, s.contents) := by
      unfold Db.upsertRelationLast
      split
      · rfl
      · split <;> rfl
    generalize (s.upsertRelationLast kind sender key action time).2 = u at hrest hlast ⊢
    obtain ⟨hrelations, hused, hdeny, hcontents⟩ :
        u.relations = s.relations ∧ u.usedSignatures = s.usedSignatures ∧
          u.kapostsDenylist = s.kapostsDenylist ∧ u.contents = s.contents := by
      simpa using hrest
    have hlink : Linked kind sender target u ↔ Linked kind sender target s := by
      rw [Linked, hrelations]
      rfl
    have htop (h : lastTime kind sender target s = some newest.time) :
        lastTime kind sender target u = some newest.time := by
      rw [hlast, le_antisymm htime (hle _ h)]
    refine ⟨⟨fun first h => ?_, htop, fun h => ⟨htop h.1, hlink.trans h.2⟩⟩, fun h =>
      ⟨fun r hr hrelates => ?_, fun last h' => ?_, fun first h' => ?_, ?_, fun hk hon => ?_⟩⟩
    · rw [Db.usedBy, hused]
      exact h
    · obtain ⟨last, hold, hr⟩ := h.times r (hrelations ▸ hr) hrelates
      exact ⟨time, hlast, hr.trans (hle last hold)⟩
    · rw [hlast] at h'
      exact Option.some.inj h' ▸ htime
    · rw [Db.usedBy, hused] at h'
      exact h.owned first h'
    · rw [Allowed, hdeny]
      exact h.allowed
    · rw [Db.kachatRelated, hcontents]
      exact h.related hk hon
  · rw [heq]
    exact (contract kind sender target newest).refl s

theorem rely_used {signature id : Bytes} (hid : signature = newest.own.1 → id = newest.own.2) :
    (contract kind sender target newest).rely s (s.insertUsed signature id).2 := by
  have hsame := tables_insertUsed signature id s
  have hlast := congrArg Db.relationLast hsame
  have hrelations := congrArg (fun db => Db.relations db kind) hsame
  have hdeny := congrArg Db.kapostsDenylist hsame
  have hcontents := congrArg Db.contents hsame
  refine rely_of_same hlast (fun r _ => ?_) (fun first => used_insertUsed_mono _ first)
    (owned_insertUsed hid) (fun h => ?_) fun _ h => ?_
  · exact iff_of_eq (congrArg (r ∈ ·) hrelations)
  · exact fun text htext => h text (hdeny ▸ htext)
  · exact (congrArg (fun contents => contents.any fun c => decide (c.senderPubkey = sender ∨
      c.senderPubkey = target)) hcontents).trans h

/-- A relation is written while its action is the newest. -/
theorem rely_insert {row : Relation} (hsender : row.senderPubkey = sender)
    (htarget : fromSecond row.targetPubkey = fromSecond target)
    (hcurrent : lastTime kind sender target s = some row.blockTime)
    (hon : row.blockTime = newest.time → newest.on) :
    (contract kind sender target newest).rely s (s.insertRelation kind row) ∧
      (row.blockTime = newest.time →
        Settled kind sender target newest (s.insertRelation kind row)) := by
  have hlinked : Linked kind sender target (s.insertRelation kind row) := by
    have h := linked_insert kind row s
    unfold Linked at h ⊢
    rwa [hsender, relates_congr htarget] at h
  have hrest : ((s.insertRelation kind row).relationLast, (s.insertRelation kind row).usedSignatures,
      (s.insertRelation kind row).kapostsDenylist, (s.insertRelation kind row).contents) =
      (s.relationLast, s.usedSignatures, s.kapostsDenylist, s.contents) := by
    unfold Db.insertRelation
    split <;> rfl
  have hmem : ∀ r ∈ (s.insertRelation kind row).relations kind, r ∈ s.relations kind ∨ r = row :=
    mem_insert row s
  generalize s.insertRelation kind row = u at hlinked hrest hmem ⊢
  obtain ⟨hlast, hused, hdeny, hcontents⟩ : u.relationLast = s.relationLast ∧
      u.usedSignatures = s.usedSignatures ∧ u.kapostsDenylist = s.kapostsDenylist ∧
        u.contents = s.contents := by simpa using hrest
  have htime : lastTime kind sender target u = some row.blockTime := by
    unfold lastTime at hcurrent ⊢
    rw [hlast, hcurrent]
  have hsettled (h : row.blockTime = newest.time) : Settled kind sender target newest u :=
    ⟨htime.trans (congrArg some h), iff_of_true hlinked (hon h)⟩
  have htop (h : lastTime kind sender target s = some newest.time) :
      row.blockTime = newest.time := Option.some.inj (hcurrent.symm.trans h)
  refine ⟨⟨⟨fun first h => ?_, fun h => htime.trans (congrArg some (htop h)), fun h =>
    hsettled (htop h.1)⟩, fun h => ⟨fun r hr hrelates => ?_, fun last h' => ?_, fun first h' => ?_,
      ?_, fun hk hon => ?_⟩⟩, hsettled⟩
  · rw [Db.usedBy, hused]
    exact h
  · rcases hmem r hr with hr | rfl
    · obtain ⟨last, hold, hle⟩ := h.times r hr hrelates
      exact ⟨row.blockTime, htime, hle.trans (Option.some.inj (hold.symm.trans hcurrent)).le⟩
    · exact ⟨_, htime, le_rfl⟩
  · exact h.bound last (hcurrent.trans (htime.symm.trans h'))
  · rw [Db.usedBy, hused] at h'
    exact h.owned first h'
  · rw [Allowed, hdeny]
    exact h.allowed
  · rw [Db.kachatRelated, hcontents]
    exact h.related hk hon

/-- A relation is removed while its action is the newest; no row is newer. -/
theorem rely_remove {row : Relation} (hsender : row.senderPubkey = sender)
    (htarget : fromSecond row.targetPubkey = fromSecond target)
    (hcurrent : lastTime kind sender target s = some row.blockTime)
    (hknown : Known kind sender target newest s)
    (hoff : row.blockTime = newest.time → ¬ newest.on) :
    (contract kind sender target newest).rely s
        (s.deleteRelation kind row.senderPubkey row.targetPubkey row.blockTime) ∧
      (row.blockTime = newest.time → Settled kind sender target newest
        (s.deleteRelation kind row.senderPubkey row.targetPubkey row.blockTime)) := by
  have hmem := mem_delete kind row.senderPubkey row.targetPubkey row.blockTime s
  rw [hsender, relates_congr htarget] at hmem
  have hnone : ¬ Linked kind sender target
      (s.deleteRelation kind row.senderPubkey row.targetPubkey row.blockTime) := by
    rintro ⟨r, hr, hrelates⟩
    rw [hsender] at hr
    obtain ⟨hr, hkept⟩ := (hmem r).mp hr
    obtain ⟨last, hlast, hle⟩ := hknown.times r hr hrelates
    exact hkept ⟨hrelates, hle.trans (Option.some.inj (hlast.symm.trans hcurrent)).le⟩
  have hsettled (h : row.blockTime = newest.time) : Settled kind sender target newest
      (s.deleteRelation kind row.senderPubkey row.targetPubkey row.blockTime) :=
    ⟨hcurrent.trans (congrArg some h), iff_of_false hnone (hoff h)⟩
  refine ⟨⟨⟨fun _ => id, id, fun h => hsettled (Option.some.inj (hcurrent.symm.trans h.1))⟩,
    fun h => ⟨fun r hr => ?_, h.bound, h.owned, h.allowed, h.related⟩⟩, hsettled⟩
  rw [hsender] at hr
  exact h.times r ((hmem r).mp hr).1

theorem rely_deny {text : Text} {key : Bytes} (hkey : hexDecode text = some key)
    (hne : key ≠ sender) :
    (contract kind sender target newest).rely s (s.insertDenied text) := by
  unfold Db.insertDenied
  split
  · exact (contract kind sender target newest).refl s
  · refine rely_of_same rfl (fun _ _ => .rfl) (fun _ => id) id (fun h text' htext => ?_) fun _ => id
    rcases List.mem_append.mp htext with htext | htext
    · exact h text' htext
    · rw [List.mem_singleton.mp htext, hexDecode_lower, hkey]
      exact fun heq => hne (Option.some.inj heq)

theorem rely_allow (text : Text) :
    (contract kind sender target newest).rely s (s.removeDenied text) :=
  rely_of_same rfl (fun _ _ => .rfl) (fun _ => id) id
    (fun h text' htext => h text' (List.mem_of_mem_filter htext)) fun _ => id

/-- A purge leaves the relations of other senders. -/
theorem rely_purge {key : Bytes} (hne : key ≠ sender) (hkind : kind = .block) :
    (contract kind sender target newest).rely s (s.purge key) := by
  refine rely_of_same rfl (fun r hr => ⟨List.mem_of_mem_filter, fun h => ?_⟩) (fun _ => id) id id
    fun hk => ?_
  · obtain ⟨hsender, -⟩ := of_decide_eq_true hr
    exact List.mem_filter.mpr ⟨h, decide_eq_true (hsender ▸ hne.symm)⟩
  · rw [hkind] at hk
    cases hk

end

/-! ## Every job keeps to the contract -/

/-- The time of a write to the rows of the pair. -/
def writesPair (kind : RelationKind) (sender target : Bytes) : Sql → Option ℤ
  | .relationWrite k s t time =>
      if k = kind ∧ s = sender ∧ fromSecond t = fromSecond target then some time else none
  | _ => none

/-- Nobody newer has asked since the action that writes. -/
def Current (kind : RelationKind) (sender target : Bytes) (ev : Sql) (db : Db) : Prop :=
  ∀ time ∈ writesPair kind sender target ev, lastTime kind sender target db = some time

instance (ev : Sql) (db : Db) : Decidable (Current kind sender target ev db) :=
  inferInstanceAs (Decidable (∀ time ∈ writesPair kind sender target ev, _))

section
variable {transaction : Transaction} {s : Db} {mine : Prop}

theorem done_safe (h : mine → Settled kind sender target newest s) :
    (contract kind sender target newest).Safe (Current kind sender target) transaction
      (fun _ t => mine → Settled kind sender target newest t) (done () : Worker Unit) s :=
  fun _ hst _ hm => hst.1.settled (h hm)

theorem settled_hold {p : Worker Unit}
    (hp : (contract kind sender target newest).Safe (Current kind sender target) transaction
      (fun _ _ => True) p s) (h : mine → Settled kind sender target newest s) :
    (contract kind sender target newest).Safe (Current kind sender target) transaction
      (fun _ t => mine → Settled kind sender target newest t) p s :=
  hp.hold h fun _ _ htu ht hm => htu.1.settled (ht hm)

/-- What follows the question whether the action is the newest. -/
theorem newest_safe {row : Relation} {action : Text} {rest : Worker Unit}
    (hsender : row.senderPubkey = sender)
    (htarget : fromSecond row.targetPubkey = fromSecond target)
    (htime : row.blockTime ≤ newest.time) (hmine : mine → row.blockTime = newest.time)
    (hrest : ∀ t, (contract kind sender target newest).Safe (Current kind sender target) transaction
      (fun _ t => mine → Settled kind sender target newest t) rest t) :
    (contract kind sender target newest).Safe (Current kind sender target) transaction
      (fun _ t => mine → Settled kind sender target newest t)
      (relationIsNewest kind row.senderPubkey row.targetPubkey action row.blockTime >>= fun b =>
        if (!b) = true then pure () else rest) s := by
  rw [hsender]
  refine .stmt_bind fun t _ hinv _ => ⟨rely_newest htarget htime, trivial, ?_⟩
  split
  · next hstale =>
    refine done_safe fun hm => ?_
    have hsame : lastTime kind sender row.targetPubkey = lastTime kind sender target := by
      funext db
      unfold lastTime
      rw [isLast_congr htarget]
    rcases upsert_spec kind sender row.targetPubkey action row.blockTime t with ⟨-, hnew, -⟩ | ⟨⟨last, hlast, hlt⟩, -⟩
    · rw [hnew] at hstale
      cases hstale
    · have hle := hinv.bound last (hsame ▸ hlast)
      have heq := hmine hm
      omega
  · exact hrest _

theorem insert_safe {row : Relation} {k : Unit → Worker Unit} (hsender : row.senderPubkey = sender)
    (htarget : fromSecond row.targetPubkey = fromSecond target)
    (hon : row.blockTime = newest.time → newest.on) (hmine : mine → row.blockTime = newest.time)
    (hk : ∀ t, (contract kind sender target newest).Safe (Current kind sender target) transaction
      (fun _ _ => True) (k ()) t) :
    (contract kind sender target newest).Safe (Current kind sender target) transaction
      (fun _ t => mine → Settled kind sender target newest t) (insertRelation kind row >>= k) s := by
  refine .execute_bind fun t _ _ hmay => ?_
  have hcurrent := hmay row.blockTime (by simp [writesPair, hsender, htarget])
  obtain ⟨hrely, hsettled⟩ := rely_insert hsender htarget hcurrent hon
  exact ⟨hrely, trivial, settled_hold (hk _) fun hm => hsettled (hmine hm)⟩

theorem remove_safe {row : Relation} {k : Unit → Worker Unit} (hsender : row.senderPubkey = sender)
    (htarget : fromSecond row.targetPubkey = fromSecond target)
    (hoff : row.blockTime = newest.time → ¬ newest.on) (hmine : mine → row.blockTime = newest.time)
    (hk : ∀ t, (contract kind sender target newest).Safe (Current kind sender target) transaction
      (fun _ _ => True) (k ()) t) :
    (contract kind sender target newest).Safe (Current kind sender target) transaction
      (fun _ t => mine → Settled kind sender target newest t) (deleteRelation kind row >>= k) s := by
  refine .execute_bind fun t _ hinv hmay => ?_
  have hcurrent := hmay row.blockTime (by simp [writesPair, hsender, htarget])
  obtain ⟨hrely, hsettled⟩ := rely_remove hsender htarget hcurrent hinv hoff
  exact ⟨hrely, trivial, settled_hold (hk _) fun hm => hsettled (hmine hm)⟩

end

/-- What an action asks of a relation: its word and its target. -/
def asks : RelationKind → KAction → Option (Text × Text)
  | .follow, .follow k => some (k.followingAction, k.followedUserPubkey)
  | .block, .block k => some (k.blockingAction, k.blockedUserPubkey)
  | _, _ => none

/-- The word that asks for the relation; the other one takes it back. -/
def onWord : RelationKind → Text
  | .follow => "follow".toList
  | .block => "block".toList

/-- An action of the pair: signed by the sender, towards some form of the x-only target. -/
def Asks (env : Env) (kind : RelationKind) (sender target : Bytes) (transaction : Transaction)
    (word : Text) (key : Bytes) : Prop :=
  ∃ action text, Acts env transaction action sender ∧ asks kind action = some (word, text) ∧
    hexDecode text = some key ∧ fromSecond key = fromSecond target

theorem allowed_denies {db : Db} {text : Text} (h : Allowed sender db)
    (htext : hexDecode text = some sender) : db.denies text = false := by
  unfold Db.denies
  rw [Bool.eq_false_iff]
  intro hmem
  refine h _ (List.contains_iff_mem.mp hmem) ?_
  rw [hexDecode_lower, htext]

/-- An operator does not block its own key. -/
def OtherKey (env : Env) (kind : RelationKind) (sender : Bytes) (transaction : Transaction)
    (key : Bytes) : Prop :=
  ∀ text, (transaction.action env).bind actionSenderPubkey = some text → kind = .block →
    env.isKapostsOperator text = true → key ≠ sender

section
variable {transaction : Transaction} {s : Db} {mine : Prop} {word : Text} {key : Bytes}

/-- What the newest action and the others of its pair are told by. -/
structure Placed (env : Env) (kind : RelationKind) (newest : Newest) (transaction : Transaction)
    (word : Text) (mine : Prop) : Prop where
  time : transaction.time ≤ newest.time
  on : transaction.time = newest.time → (newest.on ↔ word = onWord kind)
  own : transaction.signature env = some newest.own.1 → transaction.transactionId = newest.own.2
  mine : mine → transaction.time = newest.time ∧ transaction.signature env = some newest.own.1

/-- A handler of the pair's actions, up to what it does after its check. -/
theorem handler_safe {action : KAction} {text : Text} {rest : Worker Unit}
    (haction : transaction.action env = some action)
    (hverify : verifyKaspaSignature env action.signingString action.senderSignature text = true)
    (hplaced : Placed env kind newest transaction word mine)
    (hrest : ∀ t, (contract kind sender target newest).Safe (Current kind sender target) transaction
      (fun _ t => mine → Settled kind sender target newest t) rest t) :
    (contract kind sender target newest).Safe (Current kind sender target) transaction
      (fun _ t => mine → Settled kind sender target newest t)
      (checkSignature env action.signingString action.senderSignature text transaction >>=
        fun fresh => if (!fresh) = true then pure () else rest) s := by
  have hcheck : (contract kind sender target newest).Safe (Current kind sender target) transaction
      (fun b _ => mine → b = true) (checkSignature env action.signingString action.senderSignature
        text transaction) s := by
    refine check_mine haction hverify (fun hm => (hplaced.mine hm).2) hplaced.own
      (fun _ _ => trivial) (fun _ ht => ht.owned) (fun _ _ first htu => htu.1.used first)
      fun signature t hsig _ => rely_used fun heq => ?_
    exact hplaced.own (heq ▸ hsig)
  refine hcheck.bind fun fresh t _ hfresh => ?_
  split
  · next hstale =>
    refine done_safe fun hm => ?_
    rw [hfresh hm] at hstale
    cases hstale
  · exact hrest t

/-- The bind of the empty continuation. -/
theorem bind_done (p : Worker Unit) : (p >>= fun _ => done ()) = p := by
  induction p with
  | done a => rfl
  | step ev write next ih =>
    simp only [step_bind]
    congr 1
    exact funext ih

theorem follow_safe {k : KFollow} (hacts : Acts env transaction (.follow k) sender)
    (hkey : hexDecode k.followedUserPubkey = some key) (htarget : fromSecond key = fromSecond target)
    (hplaced : Placed env .follow newest transaction k.followingAction mine)
    (hrelated : mine → key = target) :
    (contract .follow sender target newest).Safe (Current .follow sender target) transaction
      (fun _ t => mine → Settled .follow sender target newest t)
      (processKFollowInDatabase env transaction k) s := by
  obtain ⟨haction, text, htext, hverify, hdecode⟩ := hacts
  obtain rfl := Option.some.inj htext
  obtain ⟨signature, -, hsig, -⟩ := verify_decodes hverify
  refine handler_safe haction hverify hplaced fun t => ?_
  simp only [hdecode, hkey, show hexDecode k.senderSignature = some signature from hsig]
  split
  · next hword =>
    unfold follow
    refine .query_bind fun u _ hinv _ => ⟨trivial, ?_⟩
    split
    · next hunknown =>
      refine done_safe fun hm => ?_
      obtain rfl := hrelated hm
      have hrel := hinv.related rfl ((hplaced.on (hplaced.mine hm).1).mpr hword)
      simp [hrel] at hunknown
    · refine newest_safe rfl htarget hplaced.time (fun hm => (hplaced.mine hm).1) fun v => ?_
      rw [← bind_done (insertRelation .follow _)]
      exact insert_safe rfl htarget (fun heq => (hplaced.on heq).mpr hword)
        (fun hm => (hplaced.mine hm).1) fun _ _ _ _ => trivial
  · next hword =>
    refine newest_safe rfl htarget hplaced.time (fun hm => (hplaced.mine hm).1) fun v => ?_
    rw [← bind_done (deleteRelation .follow _)]
    exact remove_safe rfl htarget (fun heq hon => hword ((hplaced.on heq).mp hon))
      (fun hm => (hplaced.mine hm).1) fun _ _ _ _ => trivial

theorem block_safe {k : KBlock} (hacts : Acts env transaction (.block k) sender)
    (hkey : hexDecode k.blockedUserPubkey = some key) (htarget : fromSecond key = fromSecond target)
    (hplaced : Placed env .block newest transaction k.blockingAction mine)
    (hother : env.isKapostsOperator k.senderPubkey = true → key ≠ sender) :
    (contract .block sender target newest).Safe (Current .block sender target) transaction
      (fun _ t => mine → Settled .block sender target newest t)
      (processKBlockInDatabase env transaction k) s := by
  obtain ⟨haction, text, htext, hverify, hdecode⟩ := hacts
  obtain rfl := Option.some.inj htext
  obtain ⟨signature, -, hsig, -⟩ := verify_decodes hverify
  refine handler_safe haction hverify hplaced fun t => ?_
  simp only [hdecode, hkey, show hexDecode k.senderSignature = some signature from hsig]
  split
  · next hword =>
    refine newest_safe rfl htarget hplaced.time (fun hm => (hplaced.mine hm).1) fun v => ?_
    refine insert_safe rfl htarget (fun heq => (hplaced.on heq).mpr hword)
      (fun hm => (hplaced.mine hm).1) fun u => ?_
    split
    · next operator hoperator =>
      obtain ⟨hop, rfl⟩ := Option.ite_some_none_eq_some.mp hoperator
      exact .execute_bind fun _ _ _ _ => ⟨rely_deny hkey (hother hop), trivial, fun _ _ _ _ =>
        ⟨rely_purge (hother hop) rfl, trivial, fun _ _ _ => trivial⟩⟩
    · exact fun _ _ _ => trivial
  · next hword =>
    refine newest_safe rfl htarget hplaced.time (fun hm => (hplaced.mine hm).1) fun v => ?_
    refine remove_safe rfl htarget (fun heq hon => hword ((hplaced.on heq).mp hon))
      (fun hm => (hplaced.mine hm).1) fun u => ?_
    split
    · exact fun _ _ _ _ => ⟨rely_allow _, trivial, fun _ _ _ => trivial⟩
    · exact fun _ _ _ => trivial

theorem process_safe (hasks : Asks env kind sender target transaction word key)
    (hplaced : Placed env kind newest transaction word mine) (hrelated : mine → key = target)
    (hother : OtherKey env kind sender transaction key) :
    (contract kind sender target newest).Safe (Current kind sender target) transaction
      (fun _ t => mine → Settled kind sender target newest t)
      (processKTransaction env outputs transaction) s := by
  obtain ⟨action, text, hacts, hask, hkey, htarget⟩ := hasks
  obtain ⟨haction, signer, hsigner, hverify, hdecode⟩ := hacts
  have hacts : Acts env transaction action sender := ⟨haction, signer, hsigner, hverify, hdecode⟩
  unfold processKTransaction isKapostsDenied
  simp only [haction, hsigner]
  refine .query_bind fun t _ hinv _ => ⟨trivial, ?_⟩
  split
  · next hdenied =>
    rw [allowed_denies hinv.allowed hdecode] at hdenied
    cases hdenied
  · cases kind with
    | follow =>
      cases action with
      | follow k =>
        obtain ⟨rfl, rfl⟩ := Prod.mk.inj (Option.some.inj hask)
        exact follow_safe hacts hkey htarget hplaced hrelated
      | _ => cases hask
    | block =>
      cases action with
      | block k =>
        obtain ⟨rfl, rfl⟩ := Prod.mk.inj (Option.some.inj hask)
        refine block_safe hacts hkey htarget hplaced fun hop => ?_
        exact hother k.senderPubkey (by rw [haction]; rfl) rfl hop
      | _ => cases hask

end

/-! ## Every run -/

theorem asks_unique {transaction : Transaction} {word word' : Text} {key key' : Bytes}
    (h : Asks env kind sender target transaction word key)
    (h' : Asks env kind sender target transaction word' key') : word = word' ∧ key = key' := by
  obtain ⟨action, text, hacts, hask, hkey, -⟩ := h
  obtain ⟨action', text', hacts', hask', hkey', -⟩ := h'
  obtain rfl := Option.some.inj (hacts.1.symm.trans hacts'.1)
  obtain ⟨rfl, rfl⟩ := Prod.mk.inj (Option.some.inj (hask.symm.trans hask'))
  exact ⟨rfl, Option.some.inj (hkey.symm.trans hkey')⟩

/-- Nothing of the pair is stored yet; the sender may act, and one of the two has written. -/
structure Ready (kind : RelationKind) (sender target : Bytes) (db : Db) : Prop where
  unlinked : ¬ Linked kind sender target db
  unasked : lastTime kind sender target db = none
  allowed : Allowed sender db
  related : kind = .follow → db.kachatRelated sender target = true

/-- The relation of a pair stands exactly when the newest action asks for it, in every run whose
writes are still the newest when they run. -/
theorem newest_action_wins {ours : Transaction → Prop} {last : Transaction} {word : Text} {s : Db}
    (hours : ∀ transaction, ours transaction → ∃ word key,
      Asks env kind sender target transaction word key ∧ OtherKey env kind sender transaction key)
    (hlast : Asks env kind sender target last word target)
    (htimes : ∀ transaction, ours transaction → transaction.time ≤ last.time ∧
      (transaction.time = last.time → transaction = last))
    (hown : ∀ transaction, ours transaction → transaction.signature env = last.signature env →
      transaction.transactionId = last.transactionId)
    (hready : Ready kind sender target s)
    (hunused : ∀ signature, last.signature env = some signature → s.usedBy signature = none)
    {w : World Db Sql Transaction}
    (hw : (workers env outputs ours (Current kind sender target)).Reaches s w)
    (hdone : w.Processed last) :
    Linked kind sender target w.state ↔ word = onWord kind := by
  have hasked := hlast
  obtain ⟨action, text, ⟨haction, signer, -, hverify, -⟩, -⟩ := hasked
  obtain ⟨signature, -, hsig, -⟩ := verify_decodes hverify
  have hsigned : last.signature env = some signature := by
    rw [Transaction.signature, haction]
    exact hsig
  let newest : Newest := ⟨word = onWord kind, last.time, (signature, last.transactionId)⟩
  have hknown : (contract kind sender target newest).inv s := by
    refine ⟨fun r hr hrelates => absurd ⟨r, hr, hrelates⟩ hready.unlinked, fun l hl => ?_,
      fun first h => ?_, hready.allowed, fun hk _ => hready.related hk⟩
    · rw [hready.unasked] at hl
      cases hl
    · rw [show s.usedBy newest.own.1 = none from hunused _ hsigned] at h
      cases h
  have hsafe (transaction : Transaction) (t : Db) (h : ours transaction) :
      (contract kind sender target newest).Safe (Current kind sender target) transaction
        (fun _ t => transaction = last → Settled kind sender target newest t)
        (processKTransaction env outputs transaction) t := by
    obtain ⟨word', key, hasks, hother⟩ := hours transaction h
    refine process_safe hasks ⟨(htimes _ h).1, fun htime => ?_, fun hs => ?_, ?_⟩ ?_ hother
    · obtain rfl := (htimes _ h).2 htime
      rw [(asks_unique hasks hlast).1]
    · exact hown transaction h (hs.trans hsigned.symm)
    · rintro rfl
      exact ⟨rfl, hsigned⟩
    · rintro rfl
      exact (asks_unique hasks hlast).2
  obtain ⟨-, hinv, -, hall⟩ := hw.safe (contract kind sender target newest) hknown
    fun transaction t h _ => hsafe transaction t h
  exact (hall _ hdone _ ((contract kind sender target newest).refl _) hinv rfl).2

/-! ## A follow that comes back -/

def sampleAuthor : Bytes := 2 :: List.replicate 32 0x22

def sampleFollower : Bytes := 2 :: List.replicate 32 0x11

def samplePost : Transaction :=
  sample 9 1 ["post".toList, sampleKey '2' '2', sampleSignature 'a', "4oGg".toList, "[]".toList]

def sampleFollow : Transaction :=
  sample 1 5 ["follow".toList, sampleKey '2' '1', sampleSignature 'b', "follow".toList,
    sampleKey '2' '2']

def sampleUnfollow : Transaction :=
  sample 2 6 ["follow".toList, sampleKey '2' '1', sampleSignature 'c', "unfollow".toList,
    sampleKey '2' '2']

/-- The follow was the newest when it asked; the whole unfollow comes before its insert. -/
def comesBack : List (Act Transaction) :=
  [.deliver samplePost, .deliver sampleFollow, .deliver sampleUnfollow] ++
    statements [(0, 7), (1, 6), (2, 6), (1, 1)]

theorem comesBack_runs : ∃ w, run (processKTransaction sampleEnv noOutputs) (fun _ _ _ => true)
    comesBack (.start Db.empty) = some w ∧ w.jobs.all (·.2.ended) = true ∧
    w.jobs.map Prod.fst = [samplePost, sampleFollow, sampleUnfollow] ∧
    (w.state.relations .follow).any (Db.relates sampleFollower sampleAuthor) = true := by
  have h : ((run (processKTransaction sampleEnv noOutputs) (fun _ _ _ => true) comesBack
      (.start Db.empty)).map fun w => (w.jobs.all (·.2.ended) : Bool) &&
        (decide (w.jobs.map Prod.fst = [samplePost, sampleFollow, sampleUnfollow]) &&
          (w.state.relations .follow).any (Db.relates sampleFollower sampleAuthor))) =
      some true := by
    decide +kernel
  obtain ⟨w, hw, hall⟩ := Option.map_eq_some_iff.mp h
  obtain ⟨hended, hrest⟩ := Bool.and_eq_true_iff.mp hall
  obtain ⟨hjobs, hrows⟩ := Bool.and_eq_true_iff.mp hrest
  exact ⟨w, hw, hended, of_decide_eq_true hjobs, hrows⟩

theorem sampleUnfollow_asks :
    Asks sampleEnv .follow sampleFollower sampleAuthor sampleUnfollow "unfollow".toList
      sampleAuthor :=
  ⟨.follow ⟨sampleKey '2' '1', sampleSignature 'c', "unfollow".toList, sampleKey '2' '2'⟩, _,
    ⟨by decide +kernel, _, rfl, by decide +kernel, by decide +kernel⟩, rfl, by decide +kernel, rfl⟩

theorem sampleFollow_asks :
    Asks sampleEnv .follow sampleFollower sampleAuthor sampleFollow "follow".toList sampleAuthor :=
  ⟨.follow ⟨sampleKey '2' '1', sampleSignature 'b', "follow".toList, sampleKey '2' '2'⟩, _,
    ⟨by decide +kernel, _, rfl, by decide +kernel, by decide +kernel⟩, rfl, by decide +kernel, rfl⟩

/-- The newest action of the pair is an unfollow, and the follow stands. -/
theorem unfollowed_stands : ∃ w, (processor sampleEnv noOutputs).Reaches Db.empty w ∧ w.Quiet ∧
    w.Processed sampleFollow ∧ w.Processed sampleUnfollow ∧
    Asks sampleEnv .follow sampleFollower sampleAuthor sampleFollow "follow".toList sampleAuthor ∧
    Asks sampleEnv .follow sampleFollower sampleAuthor sampleUnfollow "unfollow".toList
      sampleAuthor ∧
    sampleFollow.time < sampleUnfollow.time ∧
    Linked .follow sampleFollower sampleAuthor w.state := by
  obtain ⟨w, hw, hended, hjobs, hrows⟩ := comesBack_runs
  have hquiet := World.quiet_of_ended hended
  have hprocessed (i : Transaction) (hi : i ∈ [samplePost, sampleFollow, sampleUnfollow]) :
      w.Processed i := hquiet.processed (hjobs ▸ hi)
  exact ⟨w, .run .start (fun _ _ => trivial) (fun _ _ _ _ => trivial) hw, hquiet,
    hprocessed _ (by simp), hprocessed _ (by simp), sampleFollow_asks, sampleUnfollow_asks,
    by decide, List.any_eq_true.mp hrows⟩

/-- The author has posted. -/
def sampleState : Db :=
  { Db.empty with contents :=
      [⟨[9], 1, sampleAuthor, [], "4oGg".toList, .post, none, none⟩] }

def inTurn : List (Act Transaction) :=
  [.deliver sampleFollow, .deliver sampleUnfollow] ++ statements [(0, 7), (1, 6)]

theorem inTurn_runs : ∃ w, run (processKTransaction sampleEnv noOutputs)
    (fun _ ev db => decide (Current .follow sampleFollower sampleAuthor ev db)) inTurn
      (.start sampleState) = some w ∧ w.jobs.all (·.2.ended) = true ∧
    w.jobs.map Prod.fst = [sampleFollow, sampleUnfollow] := by
  have h : ((run (processKTransaction sampleEnv noOutputs)
      (fun _ ev db => decide (Current .follow sampleFollower sampleAuthor ev db)) inTurn
      (.start sampleState)).map fun w => (w.jobs.all (·.2.ended) : Bool) &&
        decide (w.jobs.map Prod.fst = [sampleFollow, sampleUnfollow])) = some true := by
    decide +kernel
  obtain ⟨w, hw, hall⟩ := Option.map_eq_some_iff.mp h
  obtain ⟨hended, hjobs⟩ := Bool.and_eq_true_iff.mp hall
  exact ⟨w, hw, hended, of_decide_eq_true hjobs⟩

theorem unfollow_wins : ∃ w,
    (workers sampleEnv noOutputs (· ∈ [sampleFollow, sampleUnfollow])
      (Current .follow sampleFollower sampleAuthor)).Reaches sampleState w ∧ w.Quiet ∧
    (Linked .follow sampleFollower sampleAuthor w.state ↔ "unfollow".toList = onWord .follow) := by
  obtain ⟨w, hw, hended, hjobs⟩ := inTurn_runs
  have hquiet := World.quiet_of_ended hended
  have hreaches : (workers sampleEnv noOutputs (· ∈ [sampleFollow, sampleUnfollow])
      (Current .follow sampleFollower sampleAuthor)).Reaches sampleState w := by
    refine .run .start (fun i hi => ?_) (fun _ ev db h =>
      of_decide_eq_true (p := Current .follow sampleFollower sampleAuthor ev db) h) hw
    show i ∈ [sampleFollow, sampleUnfollow]
    simpa [inTurn, statements] using hi
  have htimes : ∀ transaction ∈ [sampleFollow, sampleUnfollow],
      transaction.time ≤ sampleUnfollow.time ∧
        (transaction.time = sampleUnfollow.time → transaction = sampleUnfollow) ∧
        (transaction.signature sampleEnv = sampleUnfollow.signature sampleEnv →
          transaction.transactionId = sampleUnfollow.transactionId) := by
    decide +kernel
  refine ⟨w, hreaches, hquiet, newest_action_wins (fun transaction h => ?_) sampleUnfollow_asks
    (fun transaction h => ⟨(htimes _ h).1, (htimes _ h).2.1⟩)
    (fun transaction h => (htimes _ h).2.2)
    ⟨fun ⟨_, hr, _⟩ => absurd hr List.not_mem_nil, rfl, fun _ h => absurd h List.not_mem_nil,
      fun _ => rfl⟩ (fun _ _ => rfl) hreaches (hquiet.processed (hjobs ▸ by simp))⟩
  rcases List.mem_cons.mp h with rfl | h
  · exact ⟨_, _, sampleFollow_asks, nofun⟩
  · obtain rfl := List.mem_singleton.mp h
    exact ⟨_, _, sampleUnfollow_asks, nofun⟩

end KaChatIndexer.KaRelations
