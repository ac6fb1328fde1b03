import KaChatIndexer.ChatReads

/-!
# Export and import

The dump of the chat indexer: one line for each stored record, of its partition's name, its key and
its value, and the upload that writes such lines back.
-/
namespace KaChatIndexer.ChatExport
open ByteStrings ChatPayload ChatRows ChatReads

/-- `EXPORT_PARTITIONS`. -/
def exportPartitions : List Bytes :=
  [ascii "handshake_by_sender",
    ascii "handshake_by_receiver",
    ascii "tx-id-to-handshake",
    ascii "contextual_message_by_sender",
    ascii "contextual_message_by_inbox",
    ascii "tx-id-to-contextual-message",
    ascii "payment_by_sender",
    ascii "payment_by_receiver",
    ascii "tx_id_to_payment",
    ascii "self_stash_by_owner",
    ascii "tx-id-to-self-stash",
    ascii "group_message_by_blinded_group_id",
    ascii "tx-id-to-group-message",
    ascii "group_sender_binding",
    ascii "group_control_by_sender",
    ascii "group_control_by_recipient",
    ascii "tx-id-to-group-control",
    ascii "device_registration",
    ascii "watched_address_to_device",
    ascii "watched_group_id_to_device",
    ascii "primary_address_to_device"]

/-! ## The store -/

/-- Where the storage engine can fail: when a partition is opened, when a record is read, when a
write transaction is committed. -/
structure Disk where
  opens : Bytes → Bool
  reads : Bytes → Bytes → Bool
  commits : Bool

/-- The rows of all partitions. The engine takes only some keys (`accepts`); it panics on others. -/
structure Keyspace (accepts : Bytes → Bool) where
  rows : Bytes → Partition Bytes Bytes
  nodup : ∀ name, (keys (rows name)).Nodup
  accepted : ∀ name, ∀ key ∈ keys (rows name), accepts key = true

variable {accepts : Bytes → Bool}

def Keyspace.get (store : Keyspace accepts) (name key : Bytes) : Option Bytes :=
  ChatRows.get (store.rows name) key

/-- `wtx.insert`. -/
def Keyspace.insert (store : Keyspace accepts) (name key value : Bytes) (h : accepts key = true) :
    Keyspace accepts where
  rows name' := if name' = name then put (store.rows name') key value else store.rows name'
  nodup name' := by
    split
    · exact nodup_keys_put (store.nodup name') key value
    · exact store.nodup name'
  accepted name' key' := by
    split
    · intro hkey
      rcases mem_keys_put.mp hkey with rfl | hkey
      · exact h
      · exact store.accepted name' key' hkey
    · exact store.accepted name' key'

theorem Keyspace.get_insert (store : Keyspace accepts) (name key value : Bytes)
    (h : accepts key = true) (name' key' : Bytes) :
    (store.insert name key value h).get name' key' =
      if name' = name ∧ key' = key then some value else store.get name' key' := by
  unfold Keyspace.get Keyspace.insert
  by_cases hname : name' = name
  · simp only [hname, if_true, true_and]
    exact get_put (store.rows name) key value key'
  · simp only [hname, if_false, false_and]

/-! ## The dump -/

def space : UInt8 := 0x20

def newline : UInt8 := 0x0a

def carriageReturn : UInt8 := 0x0d

/-- The three fields of a line. -/
def fields (name keyHex valueHex : Bytes) : Bytes := name ++ space :: (keyHex ++ space :: valueHex)

/-- The partition's name, the key and the value of a record. -/
abbrev Record := Bytes × Bytes × Bytes

def body (r : Record) : Bytes := fields r.1 (hexString r.2.1) (hexString r.2.2)

def exportRows (disk : Disk) (name out : Bytes) (rows : Partition Bytes Bytes) : Option Bytes :=
  rows.foldlM (fun out row =>
    if disk.reads name row.1 then some (out ++ (body (name, row.1, row.2) ++ [newline]))
    else none) out

/-- `export_all`; nothing when it answers "export failed". -/
def exportAll (disk : Disk) (store : Keyspace accepts) : Option Bytes :=
  exportPartitions.foldlM (fun out name =>
    if disk.opens name then exportRows disk name out (store.rows name) else none) []

/-! ## The upload -/

/-- `strip_suffix('\r')`, once. -/
def stripCarriageReturn (line : Bytes) : Bytes :=
  if line.getLast? = some carriageReturn then line.dropLast else line

def decodeHex (s : Bytes) : Option Bytes :=
  if s.length % 2 ≠ 0 then none else KaText.hexDecode (s.map fun c => Char.ofNat c.toNat)

/-- The record of a line; nothing when the line is skipped. -/
def readLine (line : Bytes) : Option Record :=
  if !isUtf8 line then none
  else
    match (stripCarriageReturn line).splitOn space with
    | [name, keyHex, valueHex] =>
      if name ∈ exportPartitions then
        (decodeHex keyHex).bind fun key => (decodeHex valueHex).map fun value => (name, key, value)
      else none
    | _ => none

/-- The write transaction and the two counters of the loop. -/
structure Progress (accepts : Bytes → Bool) where
  store : Keyspace accepts
  imported : ℕ
  skipped : ℕ

/-- A line of the upload; nothing when the engine panics. -/
def importLine (p : Progress accepts) (line : Bytes) : Option (Progress accepts) :=
  if line = [] then some p
  else
    match readLine line with
    | none => some { p with skipped := p.skipped + 1 }
    | some (name, key, value) =>
      if h : accepts key = true then
        some { p with store := p.store.insert name key value h, imported := p.imported + 1 }
      else none

/-- `import_file`: the records after it, and what it answers; nothing when it answers "import
failed", and then nothing was written. -/
def importFile (disk : Disk) (store : Keyspace accepts) (data : Bytes) :
    Keyspace accepts × Option (ℕ × ℕ) :=
  if exportPartitions.all disk.opens then
    match (data.splitOn newline).foldlM importLine ⟨store, 0, 0⟩ with
    | none => (store, none)
    | some p => if disk.commits then (p.store, some (p.imported, p.skipped)) else (store, none)
  else (store, none)

/-! ## Hex -/

def lowercase (s : Bytes) : Bytes := s.map fun c => if 0x41 ≤ c && c ≤ 0x5a then c + 0x20 else c

/-- A text of the bytes in hex digits of either case. -/
def Spells (hex b : Bytes) : Prop := lowercase hex = hexString b

theorem chars_injective : Function.Injective fun c : UInt8 => Char.ofNat c.toNat := by
  have hall : ∀ n < 256, (Char.ofNat n).toNat = n := by decide +kernel
  intro c d h
  have hc := hall c.toNat c.toNat_lt
  have hd := hall d.toNat d.toNat_lt
  simp only at h
  rw [h, hd] at hc
  exact UInt8.toNat_inj.mp hc.symm

theorem lowercase_chars (s : Bytes) :
    KaText.toAsciiLowercase (s.map fun c => Char.ofNat c.toNat) =
      (lowercase s).map fun c => Char.ofNat c.toNat := by
  have hall : ∀ n < 256,
      (if 'A' ≤ Char.ofNat n ∧ Char.ofNat n ≤ 'Z' then Char.ofNat ((Char.ofNat n).toNat + 32)
        else Char.ofNat n) =
      Char.ofNat (if 0x41 ≤ UInt8.ofNat n && UInt8.ofNat n ≤ 0x5a then UInt8.ofNat n + 0x20
        else UInt8.ofNat n).toNat := by decide +kernel
  rw [KaText.toAsciiLowercase, lowercase, List.map_map, List.map_map]
  refine List.map_congr_left fun c _ => ?_
  have hc := hall c.toNat c.toNat_lt
  rwa [UInt8.ofNat_toNat] at hc

theorem hexString_lower (b : Bytes) : lowercase (hexString b) = hexString b := by
  have hall : ∀ n < 256, lowercase (hexString [UInt8.ofNat n]) = hexString [UInt8.ofNat n] := by
    decide +kernel
  induction b with
  | nil => rfl
  | cons c b ih =>
    have hc := hall c.toNat c.toNat_lt
    rw [UInt8.ofNat_toNat] at hc
    have happend : hexString (c :: b) = hexString [c] ++ hexString b := by simp [hexString]
    rw [happend, lowercase, List.map_append]
    exact congrArg₂ (· ++ ·) hc ih

theorem length_hexString (b : Bytes) : (hexString b).length = 2 * b.length := by
  rw [hexString, List.length_flatMap]
  simp [Nat.mul_comm]

theorem decodeHex_iff {s b : Bytes} : decodeHex s = some b ↔ Spells s b := by
  constructor
  · intro h
    unfold decodeHex at h
    split at h
    · cases h
    · have hlower := KaText.hexDecode_inj h (hexDecode_hexString b)
      rw [lowercase_chars, lowercase_chars, hexString_lower] at hlower
      exact List.map_injective_iff.mpr chars_injective hlower
  · intro h
    have hlength : s.length = 2 * b.length := by
      rw [← length_hexString, ← h, lowercase, List.length_map]
    rw [decodeHex, if_neg (by omega), ← KaText.hexDecode_lower, lowercase_chars, h,
      hexDecode_hexString]

/-! ## Lines -/

/-- A byte of a field: no separator, and ASCII. -/
def plain (c : UInt8) : Bool := c != space && c != newline && c != carriageReturn && c ≤ 0x7f

theorem plain_of_hex {c : UInt8} (h : isHexDigit c = true) : plain c = true := by
  have hall : ∀ n < 256, isHexDigit (UInt8.ofNat n) = true → plain (UInt8.ofNat n) = true := by
    decide +kernel
  have hc := hall c.toNat c.toNat_lt
  rw [UInt8.ofNat_toNat] at hc
  exact hc h

theorem plain_names : ∀ name ∈ exportPartitions, ∀ c ∈ name, plain c = true := by
  have hall : (exportPartitions.all fun name => name.all plain) = true := by decide +kernel
  intro name hname
  exact List.all_eq_true.mp (List.all_eq_true.mp hall name hname)

theorem hexString_digit {b : Bytes} {c : UInt8} (h : c ∈ hexString b) :
    isLowerHexDigit c = true := by
  have hall : ∀ n < 256, (hexString [UInt8.ofNat n]).all isLowerHexDigit = true := by
    decide +kernel
  obtain ⟨d, -, hc⟩ := List.mem_flatMap.mp h
  have hd := hall d.toNat d.toNat_lt
  rw [UInt8.ofNat_toNat] at hd
  exact List.all_eq_true.mp hd c (by simpa [hexString] using hc)

theorem Spells.digit {hex b : Bytes} (h : Spells hex b) {c : UInt8} (hc : c ∈ hex) :
    isHexDigit c = true := by
  have hall : ∀ n < 256,
      isLowerHexDigit (if 0x41 ≤ UInt8.ofNat n && UInt8.ofNat n ≤ 0x5a then UInt8.ofNat n + 0x20
        else UInt8.ofNat n) = true → isHexDigit (UInt8.ofNat n) = true := by decide +kernel
  have hd := hall c.toNat c.toNat_lt
  rw [UInt8.ofNat_toNat] at hd
  refine hd (hexString_digit (b := b) ?_)
  rw [← h]
  exact List.mem_map.mpr ⟨c, hc, rfl⟩

/-- The lines that name a record: its three fields with one blank between them, and a carriage
return after them or not. -/
def Names (line : Bytes) (r : Record) : Prop :=
  r.1 ∈ exportPartitions ∧ ∃ keyHex valueHex, Spells keyHex r.2.1 ∧ Spells valueHex r.2.2 ∧
    (line = fields r.1 keyHex valueHex ∨ line = fields r.1 keyHex valueHex ++ [carriageReturn])

section
variable {r : Record} {keyHex valueHex : Bytes}

theorem mem_fields (hname : r.1 ∈ exportPartitions) (hkey : Spells keyHex r.2.1)
    (hvalue : Spells valueHex r.2.2) {c : UInt8} (hc : c ∈ fields r.1 keyHex valueHex) :
    c = space ∨ plain c = true := by
  simp only [fields, List.mem_append, List.mem_cons] at hc
  rcases hc with hc | hc | hc | hc | hc
  · exact .inr (plain_names r.1 hname c hc)
  · exact .inl hc
  · exact .inr (plain_of_hex (hkey.digit hc))
  · exact .inl hc
  · exact .inr (plain_of_hex (hvalue.digit hc))

theorem split_fields (hname : r.1 ∈ exportPartitions) (hkey : Spells keyHex r.2.1)
    (hvalue : Spells valueHex r.2.2) :
    (fields r.1 keyHex valueHex).splitOn space = [r.1, keyHex, valueHex] := by
  have apart : ∀ {t : Bytes}, (∀ c ∈ t, plain c = true) → space ∉ t :=
    fun ht hmem => absurd (ht space hmem) (by decide)
  have hname' := apart (plain_names r.1 hname)
  have hkey' := apart fun c hc => plain_of_hex (hkey.digit hc)
  have hvalue' := apart fun c hc => plain_of_hex (hvalue.digit hc)
  rw [fields, List.splitOn_append_cons_self_of_not_mem hname',
    List.splitOn_append_cons_self_of_not_mem hkey', List.splitOn_eq_singleton hvalue']

theorem isUtf8_ascii {b : Bytes} (h : ∀ c ∈ b, c ≤ 0x7f) : isUtf8 b = true := by
  induction b with
  | nil => rfl
  | cons c b ih =>
    unfold isUtf8
    rw [if_pos (h c List.mem_cons_self)]
    exact ih fun d hd => h d (List.mem_cons_of_mem c hd)

theorem strip_append (b : Bytes) : stripCarriageReturn (b ++ [carriageReturn]) = b := by
  simp [stripCarriageReturn]

theorem strip_self {b : Bytes} (h : carriageReturn ∉ b) : stripCarriageReturn b = b := by
  rw [stripCarriageReturn, if_neg fun hlast => h (List.mem_of_getLast? hlast)]

theorem strip_cases (line : Bytes) :
    line = stripCarriageReturn line ∨ line = stripCarriageReturn line ++ [carriageReturn] := by
  unfold stripCarriageReturn
  split
  · next hlast =>
    obtain ⟨front, rfl⟩ := List.getLast?_eq_some_iff.mp hlast
    exact .inr (by simp)
  · exact .inl rfl

end

/-- A line is read as a record exactly when it names it. -/
theorem readLine_iff {line : Bytes} {r : Record} : readLine line = some r ↔ Names line r := by
  constructor
  · intro h
    unfold readLine at h
    split at h
    · cases h
    · split at h
      · next name keyHex valueHex hsplit =>
        split at h
        · next hname =>
          obtain ⟨key, hkey, h⟩ := Option.bind_eq_some_iff.mp h
          obtain ⟨value, hvalue, rfl⟩ := Option.map_eq_some_iff.mp h
          have hjoin : [space].intercalate ((stripCarriageReturn line).splitOn space) =
              stripCarriageReturn line := List.intercalate_splitOn space
          have hstrip : stripCarriageReturn line = fields name keyHex valueHex := by
            rw [hsplit] at hjoin
            rw [← hjoin]
            simp [fields, List.intercalate, List.intersperse]
          refine ⟨hname, keyHex, valueHex, decodeHex_iff.mp hkey, decodeHex_iff.mp hvalue, ?_⟩
          rw [← hstrip]
          exact strip_cases line
        · cases h
      · cases h
  · rintro ⟨hname, keyHex, valueHex, hkey, hvalue, hline⟩
    have hchar : ∀ c ∈ fields r.1 keyHex valueHex, c ≠ carriageReturn ∧ c ≤ 0x7f := by
      intro c hc
      rcases mem_fields hname hkey hvalue hc with rfl | hc
      · decide
      · simp only [plain, Bool.and_eq_true, bne_iff_ne, decide_eq_true_eq] at hc
        exact ⟨hc.1.2, hc.2⟩
    have hstrip : stripCarriageReturn line = fields r.1 keyHex valueHex := by
      rcases hline with rfl | rfl
      · exact strip_self fun hmem => (hchar _ hmem).1 rfl
      · exact strip_append _
    have hutf8 : isUtf8 line = true := by
      refine isUtf8_ascii fun c hc => ?_
      rcases hline with rfl | rfl
      · exact (hchar c hc).2
      · rcases List.mem_append.mp hc with hc | hc
        · exact (hchar c hc).2
        · rw [List.mem_singleton.mp hc]
          decide
    unfold readLine
    rw [hutf8, hstrip, split_fields hname hkey hvalue]
    simp [hname, decodeHex_iff.mpr hkey, decodeHex_iff.mpr hvalue]

/-! ## What a dump holds -/

/-- The records of the exported partitions. -/
def records (store : Keyspace accepts) : List Record :=
  exportPartitions.flatMap fun name => (store.rows name).map fun row => (name, row.1, row.2)

theorem mem_records {store : Keyspace accepts} {r : Record} :
    r ∈ records store ↔ r.1 ∈ exportPartitions ∧ store.get r.1 r.2.1 = some r.2.2 := by
  obtain ⟨name, key, value⟩ := r
  simp only [records, List.mem_flatMap, List.mem_map]
  constructor
  · rintro ⟨name', hname, row, hrow, heq⟩
    cases heq
    exact ⟨hname, get_of_mem (store.nodup name) hrow⟩
  · rintro ⟨hname, hget⟩
    exact ⟨name, hname, (key, value), mem_of_get hget, rfl⟩

/-- The text of some records, with `ending` after each. -/
def dump (ending : Bytes) (rs : List Record) : Bytes := rs.flatMap fun r => body r ++ ending

theorem foldlM_append {α : Type} {f : Bytes → α → Option Bytes} {g : α → Bytes}
    (hf : ∀ out a out', f out a = some out' → out' = out ++ g a) {l : List α} {out file : Bytes}
    (h : l.foldlM f out = some file) : file = out ++ l.flatMap g := by
  induction l generalizing out with
  | nil => simpa using h.symm
  | cons a l ih =>
    rw [List.foldlM_cons] at h
    obtain ⟨out', hstep, hrest⟩ := Option.bind_eq_some_iff.mp h
    rw [ih hrest, hf out a out' hstep, List.flatMap_cons, List.append_assoc]

theorem exportRows_some {disk : Disk} {name out file : Bytes} {rows : Partition Bytes Bytes}
    (h : exportRows disk name out rows = some file) :
    file = out ++ dump [newline] (rows.map fun row => (name, row.1, row.2)) := by
  rw [dump, List.flatMap_map]
  refine foldlM_append (fun out row out' hrow => ?_) h
  split at hrow
  · exact (Option.some.inj hrow).symm
  · cases hrow

theorem exportAll_some {disk : Disk} {store : Keyspace accepts} {file : Bytes}
    (h : exportAll disk store = some file) : file = dump [newline] (records store) := by
  have hfile := foldlM_append
    (g := fun name => dump [newline] ((store.rows name).map fun row => (name, row.1, row.2)))
    (fun out name out' hname => by
      split at hname
      · exact exportRows_some hname
      · cases hname) h
  rw [hfile, List.nil_append, dump, records, List.flatMap_assoc]
  rfl

/-- The file with its line ends changed. -/
def crlf (file : Bytes) : Bytes :=
  file.flatMap fun c => if c = newline then [carriageReturn, newline] else [c]

theorem body_newline {r : Record} (h : r.1 ∈ exportPartitions) : newline ∉ body r := by
  intro hmem
  rcases mem_fields h (hexString_lower _) (hexString_lower _) hmem with hc | hc
  · exact absurd hc (by decide)
  · exact absurd hc (by decide)

theorem crlf_plain {t : Bytes} (h : newline ∉ t) : crlf t = t := by
  induction t with
  | nil => rfl
  | cons c t ih =>
    obtain ⟨hc, ht⟩ := List.ne_and_not_mem_of_not_mem_cons h
    rw [crlf, List.flatMap_cons, if_neg (Ne.symm hc)]
    exact congrArg (c :: ·) (ih ht)

theorem crlf_dump {rs : List Record} (h : ∀ r ∈ rs, r.1 ∈ exportPartitions) :
    crlf (dump [newline] rs) = dump [carriageReturn, newline] rs := by
  induction rs with
  | nil => rfl
  | cons r rs ih =>
    have hbody := crlf_plain (body_newline (h r List.mem_cons_self))
    have hrest := ih fun r' hr' => h r' (List.mem_cons_of_mem r hr')
    simp only [crlf, dump, List.flatMap_cons, List.flatMap_append] at hbody hrest ⊢
    rw [hbody, hrest]
    rfl

theorem splitOn_dump {tail : Bytes} (htail : newline ∉ tail) {rs : List Record}
    (h : ∀ r ∈ rs, r.1 ∈ exportPartitions) :
    (dump (tail ++ [newline]) rs).splitOn newline = (rs.map fun r => body r ++ tail) ++ [[]] := by
  induction rs with
  | nil => rfl
  | cons r rs ih =>
    have hline : newline ∉ body r ++ tail := fun hmem =>
      (List.mem_append.mp hmem).elim (body_newline (h r List.mem_cons_self)) htail
    have hcons : dump (tail ++ [newline]) (r :: rs) =
        (body r ++ tail) ++ newline :: dump (tail ++ [newline]) rs := by
      simp [dump]
    rw [hcons, List.splitOn_append_cons_self_of_not_mem hline,
      ih fun r' hr' => h r' (List.mem_cons_of_mem r hr')]
    rfl

/-! ## Writing a dump back -/

/-- What some records do to the rows: each is set, and all others stay. -/
structure Written (rs : List Record) (before after : Keyspace accepts) : Prop where
  set : ∀ r ∈ rs, (∀ r' ∈ rs, r'.1 = r.1 → r'.2.1 = r.2.1 → r' = r) →
    after.get r.1 r.2.1 = some r.2.2
  kept : ∀ name key, (∀ r ∈ rs, r.1 = name → r.2.1 ≠ key) →
    after.get name key = before.get name key

theorem Written.cons {r : Record} {rs : List Record} {before after : Keyspace accepts}
    (haccepts : accepts r.2.1 = true)
    (h : Written rs (before.insert r.1 r.2.1 r.2.2 haccepts) after) :
    Written (r :: rs) before after where
  set r₀ hr₀ hone := by
    by_cases hlater : ∃ r' ∈ rs, r'.1 = r₀.1 ∧ r'.2.1 = r₀.2.1
    · obtain ⟨r', hr', hname, hkey⟩ := hlater
      obtain rfl := hone r' (List.mem_cons_of_mem r hr') hname hkey
      exact h.set r' hr' fun r'' hr'' => hone r'' (List.mem_cons_of_mem r hr'')
    · -- the record is the first one, and no later line has its key
      have hfirst : r₀ = r := (List.mem_cons.mp hr₀).resolve_right fun hmem =>
        hlater ⟨r₀, hmem, rfl, rfl⟩
      subst hfirst
      rw [h.kept r₀.1 r₀.2.1 fun r' hr' hname hkey => hlater ⟨r', hr', hname, hkey⟩,
        Keyspace.get_insert, if_pos ⟨rfl, rfl⟩]
  kept name key hother := by
    rw [h.kept name key fun r' hr' => hother r' (List.mem_cons_of_mem r hr'),
      Keyspace.get_insert, if_neg]
    rintro ⟨rfl, rfl⟩
    exact hother r List.mem_cons_self rfl rfl

theorem importLine_body {tail : Bytes} (htail : tail = [] ∨ tail = [carriageReturn])
    {r : Record} (hname : r.1 ∈ exportPartitions) (haccepts : accepts r.2.1 = true)
    (p : Progress accepts) :
    importLine p (body r ++ tail) =
      some ⟨p.store.insert r.1 r.2.1 r.2.2 haccepts, p.imported + 1, p.skipped⟩ := by
  have hread : readLine (body r ++ tail) = some r := by
    refine readLine_iff.mpr ⟨hname, _, _, hexString_lower _, hexString_lower _, ?_⟩
    rcases htail with rfl | rfl
    · exact .inl (List.append_nil _)
    · exact .inr rfl
  have hne : body r ++ tail ≠ [] := by simp [body, fields]
  rw [importLine, if_neg hne, hread]
  exact dif_pos haccepts

/-- The lines of a dump, one after the other. -/
theorem importLines_dump {tail : Bytes} (htail : tail = [] ∨ tail = [carriageReturn])
    {rs : List Record} (h : ∀ r ∈ rs, r.1 ∈ exportPartitions ∧ accepts r.2.1 = true)
    (p : Progress accepts) :
    ∃ store, ((rs.map fun r => body r ++ tail) ++ [[]]).foldlM importLine p =
        some ⟨store, p.imported + rs.length, p.skipped⟩ ∧ Written rs p.store store := by
  induction rs generalizing p with
  | nil => exact ⟨p.store, rfl, ⟨by simp, fun _ _ _ => rfl⟩⟩
  | cons r rs ih =>
    obtain ⟨hname, haccepts⟩ := h r List.mem_cons_self
    obtain ⟨store, hrun, hwritten⟩ := ih (fun r' hr' => h r' (List.mem_cons_of_mem r hr'))
      ⟨p.store.insert r.1 r.2.1 r.2.2 haccepts, p.imported + 1, p.skipped⟩
    refine ⟨store, ?_, Written.cons haccepts hwritten⟩
    rw [List.map_cons, List.cons_append, List.foldlM_cons,
      importLine_body htail hname haccepts]
    rw [List.length_cons, Nat.add_comm rs.length, ← Nat.add_assoc]
    exact hrun

/-! ## Any upload -/

/-- A line writes the record it names, or nothing. -/
theorem importLine_some {p q : Progress accepts} {line : Bytes}
    (h : importLine p line = some q) :
    q.store = p.store ∨ ∃ r, ∃ haccepts, Names line r ∧
      q.store = p.store.insert r.1 r.2.1 r.2.2 haccepts := by
  unfold importLine at h
  split at h
  · exact .inl (by rw [← Option.some.inj h])
  · split at h
    · exact .inl (by rw [← Option.some.inj h])
    · next name key value hread =>
      split at h
      · next haccepts =>
        rw [← Option.some.inj h]
        exact .inr ⟨(name, key, value), haccepts, readLine_iff.mp hread, rfl⟩
      · cases h

/-- A record that is not as it was is the one of a line. -/
theorem importLines_some {lines : List Bytes} {p q : Progress accepts}
    (h : lines.foldlM importLine p = some q) (name key : Bytes) :
    q.store.get name key = p.store.get name key ∨
      ∃ line ∈ lines, ∃ value, Names line (name, key, value) ∧
        q.store.get name key = some value := by
  induction lines generalizing p with
  | nil =>
    rw [List.foldlM_nil] at h
    exact .inl (by rw [← Option.some.inj h])
  | cons line lines ih =>
    rw [List.foldlM_cons] at h
    obtain ⟨p', hstep, hrest⟩ := Option.bind_eq_some_iff.mp h
    rcases ih hrest with hsame | ⟨line', hline', value, hnames, hget⟩
    · rcases importLine_some hstep with hstore | ⟨r, haccepts, hnames, hstore⟩
      · exact .inl (by rw [hsame, hstore])
      · rw [hstore, Keyspace.get_insert] at hsame
        by_cases hat : name = r.1 ∧ key = r.2.1
        · obtain ⟨rfl, rfl⟩ := hat
          rw [if_pos ⟨rfl, rfl⟩] at hsame
          exact .inr ⟨line, List.mem_cons_self, r.2.2, hnames, hsame⟩
        · rw [if_neg hat] at hsame
          exact .inl hsame
    · exact .inr ⟨line', List.mem_cons_of_mem line hline', value, hnames, hget⟩

theorem importFile_some (disk : Disk) (store : Keyspace accepts) (data : Bytes)
    (name key : Bytes) :
    (importFile disk store data).1.get name key = store.get name key ∨
      ∃ line ∈ data.splitOn newline, ∃ value, Names line (name, key, value) ∧
        (importFile disk store data).1.get name key = some value := by
  unfold importFile
  split
  · split
    · exact .inl rfl
    · next hrun =>
      split
      · exact importLines_some hrun name key
      · exact .inl rfl
  · exact .inl rfl

/-! ## Round trip -/

/-- The exported records of `source` over all others of `target`. -/
structure Restored (source target after : Keyspace accepts) : Prop where
  set : ∀ name ∈ exportPartitions, ∀ key value, source.get name key = some value →
    after.get name key = some value
  kept : ∀ name key, name ∉ exportPartitions ∨ source.get name key = none →
    after.get name key = target.get name key

theorem Written.restored {source target after : Keyspace accepts}
    (h : Written (records source) target after) : Restored source target after where
  set name hname key value hget := by
    refine h.set (name, key, value) (mem_records.mpr ⟨hname, hget⟩) ?_
    rintro ⟨name', key', value'⟩ hmem hname' hkey'
    obtain rfl : name' = name := hname'
    obtain rfl : key' = key := hkey'
    obtain rfl : value' = value :=
      Option.some.inj ((mem_records.mp hmem).2.symm.trans hget)
    rfl
  kept name key hother := by
    refine h.kept name key ?_
    rintro r hr rfl rfl
    obtain ⟨hname, hget⟩ := mem_records.mp hr
    rcases hother with hother | hother
    · exact hother hname
    · rw [hother] at hget
      cases hget

theorem importFile_dump {source target : Keyspace accepts} {disk : Disk}
    (hopens : exportPartitions.all disk.opens = true) (hcommits : disk.commits = true)
    {tail : Bytes} (htail : tail = [] ∨ tail = [carriageReturn]) :
    ∃ after, importFile disk target (dump (tail ++ [newline]) (records source)) =
        (after, some ((records source).length, 0)) ∧ Restored source target after := by
  have hrecords : ∀ r ∈ records source, r.1 ∈ exportPartitions ∧ accepts r.2.1 = true := by
    intro r hr
    obtain ⟨hname, hget⟩ := mem_records.mp hr
    refine ⟨hname, source.accepted r.1 r.2.1 (get_isSome.mp ?_)⟩
    exact Option.isSome_iff_exists.mpr ⟨r.2.2, hget⟩
  have hnewline : newline ∉ tail := by
    rcases htail with rfl | rfl <;> decide
  obtain ⟨after, hrun, hwritten⟩ := importLines_dump htail hrecords ⟨target, 0, 0⟩
  refine ⟨after, ?_, hwritten.restored⟩
  rw [importFile, if_pos hopens, splitOn_dump hnewline fun r hr => (hrecords r hr).1, hrun]
  simp [hcommits]

/-- What was exported comes back whole, with either line ends, and no upload writes anything but the
records its lines name. -/
theorem dump_restored {source : Keyspace accepts} {disk : Disk} {file : Bytes}
    (hfile : exportAll disk source = some file) {disk' : Disk}
    (hopens : exportPartitions.all disk'.opens = true) (hcommits : disk'.commits = true)
    (target : Keyspace accepts) :
    (∀ form ∈ [file, crlf file], ∃ after,
      importFile disk' target form = (after, some ((records source).length, 0)) ∧
        Restored source target after) ∧
    ∀ (disk : Disk) (store : Keyspace accepts) (data name key : Bytes),
      (importFile disk store data).1.get name key ≠ store.get name key →
      ∃ line ∈ data.splitOn newline, ∃ value, Names line (name, key, value) ∧
        (importFile disk store data).1.get name key = some value := by
  constructor
  · have hdump := exportAll_some hfile
    have hcrlf := crlf_dump fun r (hr : r ∈ records source) => (mem_records.mp hr).1
    intro form hform
    rw [hdump, hcrlf] at hform
    simp only [List.mem_cons, List.not_mem_nil, or_false] at hform
    rcases hform with rfl | rfl
    · exact importFile_dump hopens hcommits (.inl rfl)
    · exact importFile_dump hopens hcommits (.inr rfl)
  · intro disk store data name key hchanged
    exact (importFile_some disk store data name key).resolve_left hchanged

/-! An index row without a value and a message; the engine refuses empty keys. -/

def nonempty (key : Bytes) : Bool := key ≠ []

def emptyStore : Keyspace nonempty where
  rows _ := []
  nodup _ := List.nodup_nil
  accepted _ _ h := by cases h

def sampleStore : Keyspace nonempty :=
  (emptyStore.insert (ascii "watched_address_to_device") [0x0a, 0x20] [] rfl).insert
    (ascii "tx-id-to-group-message") [0xab, 0x0d] [0x0d, 0x0a] rfl

def sampleDisk : Disk := ⟨fun _ => true, fun _ _ => true, true⟩

def sampleFile : Bytes :=
  ascii "tx-id-to-group-message ab0d 0d0a\nwatched_address_to_device 0a20 \n"

theorem sample_restored :
    exportAll sampleDisk sampleStore = some sampleFile ∧
    ∃ after, importFile sampleDisk emptyStore (crlf sampleFile) = (after, some (2, 0)) ∧
      Restored sampleStore emptyStore after := by
  have hfile : exportAll sampleDisk sampleStore = some sampleFile := by decide +kernel
  exact ⟨hfile, (dump_restored hfile rfl rfl emptyStore).1 (crlf sampleFile) (by simp)⟩

end KaChatIndexer.ChatExport
