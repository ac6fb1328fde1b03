import KaChatIndexer.ArenaReplay

/-!
# Room independence

What a replay makes of a room depends on the rows that name the room and on nothing else: neither on
the order in which the rows are given, nor on the rows of other rooms.
-/
namespace KaChatIndexer.ArenaIndependence
open ByteStrings ArenaState ArenaReduce ArenaRooms ArenaReplay KeyedReplay

/-- The rows of the arena channel, decoded and replayed. -/
def reduceRows (env : ArenaEnv) (rows : List ArenaRow) : Rooms :=
  reduce env (rows.filterMap (arenaEvent env))

/-- The row's message names the room. -/
def names (env : ArenaEnv) (k : Bytes) (row : ArenaRow) : Bool :=
  (arenaEvent env row).any fun e => e.message.t = k

section
variable {events events' : List ArenaEvent}

theorem chainKey_txId {a b : ArenaEvent} (h : chainKey a = chainKey b) : a.txId = b.txId := by
  have hmap : a.txId.map UInt8.toNat = b.txId.map UInt8.toNat := congrArg (fun key => (ofLex key).2) h
  exact List.map_injective_iff.mpr (fun _ _ => UInt8.toNat_inj.mp) hmap

theorem txId_inj (h : (events.map ArenaEvent.txId).Nodup) {a b : ArenaEvent} (ha : a ∈ events)
    (hb : b ∈ events) (heq : a.txId = b.txId) : a = b := List.inj_on_of_nodup_map h ha hb heq

/-- With distinct transactions there is one chain order. -/
theorem sorted_unique (h : (events.map ArenaEvent.txId).Nodup) (hperm : events.Perm events')
    (hsorted : events.Pairwise fun a b => chainKey a ≤ chainKey b)
    (hsorted' : events'.Pairwise fun a b => chainKey a ≤ chainKey b) : events = events' :=
  hperm.eq_of_pairwise (fun _ _ ha hb hab hba =>
    txId_inj h ha (hperm.mem_iff.mpr hb) (chainKey_txId (le_antisymm hab hba))) hsorted hsorted'

theorem chainOrder_perm (events : List ArenaEvent) : (chainOrder events).Perm events :=
  List.mergeSort_perm ..

theorem chainOrder_nodup (h : (events.map ArenaEvent.txId).Nodup) :
    ((chainOrder events).map ArenaEvent.txId).Nodup :=
  ((chainOrder_perm events).map _).nodup_iff.mpr h

/-- The events of a room keep their order. -/
theorem chainOrder_filter (h : (events.map ArenaEvent.txId).Nodup) (p : ArenaEvent → Bool) :
    (chainOrder events).filter p = chainOrder (events.filter p) := by
  refine sorted_unique ?_ ?_ ?_ (chainOrder_pairwise _)
  · exact (chainOrder_nodup h).sublist (List.filter_sublist.map _)
  · exact ((chainOrder_perm events).filter p).trans (chainOrder_perm _).symm
  · exact (chainOrder_pairwise events).filter p

theorem chainOrder_congr (h : (events.map ArenaEvent.txId).Nodup) (hperm : events.Perm events') :
    chainOrder events = chainOrder events' :=
  sorted_unique (chainOrder_nodup h)
    ((chainOrder_perm events).trans (hperm.trans (chainOrder_perm events').symm))
    (chainOrder_pairwise _) (chainOrder_pairwise _)

end

section
variable {env : ArenaEnv} {rows rows' : List ArenaRow} {k : Bytes}

theorem events_nodup (h : (rows.map ArenaRow.txId).Nodup) :
    ((rows.filterMap (arenaEvent env)).map ArenaEvent.txId).Nodup := by
  unfold List.Nodup at h ⊢
  rw [List.pairwise_map] at h ⊢
  rw [List.pairwise_filterMap]
  refine h.imp fun {_ _} hne e he e' he' => ?_
  have htx {row : ArenaRow} {e : ArenaEvent} (he : arenaEvent env row = some e) : e.txId = row.txId := by
    obtain ⟨message, -, rfl⟩ := Option.map_eq_some_iff.mp he
    rfl
  rw [htx he, htx he']
  exact hne

theorem events_filter (rows : List ArenaRow) :
    (rows.filter (names env k)).filterMap (arenaEvent env) =
      (rows.filterMap (arenaEvent env)).filter fun e => decide (e.message.t = k) := by
  rw [List.filterMap_filter, List.filter_filterMap]
  refine List.filterMap_congr fun row _ => ?_
  unfold names
  cases arenaEvent env row with
  | none => rfl
  | some e => rfl

/-- The replay of a room from the rows that name it. -/
theorem lookup_reduceRows (h : (rows.map ArenaRow.txId).Nodup) (k : Bytes) :
    (reduceRows env rows).lookup k =
      (chainOrder ((rows.filter (names env k)).filterMap (arenaEvent env))).foldl
        (fun room e => roomAfter env e room) none := by
  have hreplay := (applyEvent_keyed env).lookup_replay ∅ (chainOrder (rows.filterMap (arenaEvent env))) k
  rw [chainOrder_filter (events_nodup h), ← events_filter] at hreplay
  exact hreplay

/-- Rows of other rooms and the order of the rows do not matter to a room. -/
theorem room_independence (env : ArenaEnv) (k : Bytes) (h : (rows.map ArenaRow.txId).Nodup) :
    (∀ rows', rows.Perm rows' → (reduceRows env rows').lookup k = (reduceRows env rows).lookup k) ∧
    (reduceRows env (rows.filter (names env k))).lookup k = (reduceRows env rows).lookup k ∧
    ∀ rows', (rows'.map ArenaRow.txId).Nodup →
      (rows'.filter (names env k)).Perm (rows.filter (names env k)) →
      (reduceRows env rows').lookup k = (reduceRows env rows).lookup k := by
  have hall (rows' : List ArenaRow) (h' : (rows'.map ArenaRow.txId).Nodup)
      (hperm : (rows'.filter (names env k)).Perm (rows.filter (names env k))) :
      (reduceRows env rows').lookup k = (reduceRows env rows).lookup k := by
    rw [lookup_reduceRows h, lookup_reduceRows h']
    have hnodup : ((rows'.filter (names env k)).map ArenaRow.txId).Nodup :=
      h'.sublist (List.filter_sublist.map _)
    rw [chainOrder_congr (events_nodup hnodup) (hperm.filterMap _)]
  refine ⟨fun rows' hperm => ?_, ?_, hall⟩
  · exact hall rows' ((hperm.map _).nodup_iff.mp h) (hperm.symm.filter _)
  · refine hall _ (h.sublist (List.filter_sublist.map _)) ?_
    rw [List.filter_filter]
    simp only [Bool.and_self, List.Perm.refl]

end

/-- Joins of the duel that the content names. -/
def joinsEnv : ArenaEnv where
  fromStr content := some { (duelEvent "alice" "join" 1).message with
    t := ascii "duel-" ++ content.drop 10 }
  sha256 _ := zero32

def joinRows : List ArenaRow :=
  [⟨ascii "1", ascii "alice", 1, ascii "\x7b\"chess_t\"1"⟩,
    ⟨ascii "2", ascii "bob", 2, ascii "\x7b\"chess_t\"2"⟩,
    ⟨ascii "3", ascii "carol", 3, ascii "\x7b\"chess_t\"1"⟩]

theorem joinRows_independent :
    (joinRows.filter (names joinsEnv (ascii "duel-1"))).length = 2 ∧
    (∀ rows', joinRows.Perm rows' → (reduceRows joinsEnv rows').lookup (ascii "duel-1") =
      (reduceRows joinsEnv joinRows).lookup (ascii "duel-1")) ∧
    (reduceRows joinsEnv (joinRows.filter (names joinsEnv (ascii "duel-1")))).lookup
      (ascii "duel-1") = (reduceRows joinsEnv joinRows).lookup (ascii "duel-1") ∧
    ∀ rows', (rows'.map ArenaRow.txId).Nodup →
      (rows'.filter (names joinsEnv (ascii "duel-1"))).Perm
        (joinRows.filter (names joinsEnv (ascii "duel-1"))) →
      (reduceRows joinsEnv rows').lookup (ascii "duel-1") =
        (reduceRows joinsEnv joinRows).lookup (ascii "duel-1") :=
  ⟨by decide +kernel, room_independence joinsEnv (ascii "duel-1") (by decide +kernel)⟩

end KaChatIndexer.ArenaIndependence
