import Mathlib.Algebra.Ring.Nat
import Mathlib.Data.List.Basic
import Mathlib.Tactic.Common

/-!
# Structures read from JSON values

A derived reader takes a structure from an object by the names of its fields, or from an array by
their places. Unknown members are skipped; a field named twice and a surplus item are errors.
-/
namespace KaChatIndexer.JsonReading

/-- A number with a fraction or an exponent is only known by its text. -/
inductive Json
  | null
  | bool (b : Bool)
  | int (n : ℤ)
  | float (digits : List Char)
  | str (t : List Char)
  | arr (items : List Json)
  | obj (members : List (String × Json))

namespace Json

def get (key : String) : Json → Option Json
  | obj members => members.lookup key
  | _ => none

def isObject : Json → Bool
  | obj _ => true
  | _ => false

/-! ## Values -/

def uint (bits : ℕ) : Json → Option (Fin (2 ^ bits))
  | int n => if h : 0 ≤ n ∧ n.toNat < 2 ^ bits then some ⟨n.toNat, h.2⟩ else none
  | _ => none

def text : Json → Option (List Char)
  | str t => some t
  | _ => none

def items {α : Type*} (read : Json → Option α) : Json → Option (List α)
  | arr js => js.mapM read
  | _ => none

def optional {α : Type*} (read : Json → Option α) : Json → Option (Option α)
  | null => some none
  | j => (read j).map some

@[simp] theorem uint_int {bits : ℕ} (x : Fin (2 ^ bits)) : uint bits (int (x.val : ℤ)) = some x := by
  have h : (0 : ℤ) ≤ (x.val : ℤ) ∧ (x.val : ℤ).toNat < 2 ^ bits := ⟨by omega, by simp [x.isLt]⟩
  rw [uint, dif_pos h]
  rfl

/-! ## Fields -/

/-- The member of one of these names; two such members are an error. -/
def given (names : List String) (members : List (String × Json)) : Option (Option Json) :=
  match members.filter fun m => m.1 ∈ names with
  | [] => some none
  | [m] => some (some m.2)
  | _ => none

/-- The field of these names, the `i`-th of its structure. -/
def slot (names : List String) (i : ℕ) : Json → Option (Option Json)
  | obj members => given names members
  | arr js => some js[i]?
  | _ => none

/-- An object, or an array of at most `n` items. -/
def fits (n : ℕ) : Json → Bool
  | obj _ => true
  | arr js => js.length ≤ n
  | _ => false

def field {α : Type*} (names : List String) (i : ℕ) (read : Json → Option α) (j : Json) : Option α :=
  (slot names i j).bind fun v => v.bind read

def fieldOr {α : Type*} (names : List String) (i : ℕ) (absent : α) (read : Json → Option α)
    (j : Json) : Option α :=
  (slot names i j).bind fun v => v.elim (some absent) read

def itemsFit (n : ℕ) : Json → Bool
  | arr js => js.all (fits n)
  | _ => false

/-- The items of a list field are objects, or arrays of at most `n` items. -/
def fieldFits (names : List String) (i n : ℕ) (j : Json) : Bool := (slot names i j).join.all (itemsFit n)

/-! ## Members changed or left out -/

/-- The value without its members of this name. -/
def without (key : String) : Json → Json
  | obj members => obj (members.filter fun m => m.1 ≠ key)
  | j => j

/-- The value with `f` at its members of this name. -/
def changed (key : String) (f : Json → Json) : Json → Json
  | obj members => obj (members.map fun m => if m.1 = key then (m.1, f m.2) else m)
  | j => j

def eachItem (f : Json → Json) : Json → Json
  | arr js => arr (js.map f)
  | j => j

variable {key : String} {names : List String} {i n : ℕ} {f : Json → Json} {j : Json}

@[simp] theorem fits_without : fits n (without key j) = fits n j := by
  cases j <;> rfl

@[simp] theorem fits_changed : fits n (changed key f j) = fits n j := by
  cases j <;> rfl

theorem fits_mono {m : ℕ} (h : m ≤ n) (hfits : fits m j = true) : fits n j = true := by
  cases j with
  | arr js =>
    simp only [fits, decide_eq_true_eq] at hfits ⊢
    omega
  | obj members => rfl
  | null | bool _ | int _ | float _ | str _ => cases hfits

theorem given_congr {l l' : List (String × Json)}
    (h : (l.filter fun m => m.1 ∈ names) = l'.filter fun m => m.1 ∈ names) :
    given names l = given names l' := by
  rw [given, given, h]

theorem slot_without (hkey : key ∉ names) : slot names i (without key j) = slot names i j := by
  cases j with
  | obj members =>
    refine given_congr ?_
    rw [List.filter_filter]
    refine List.filter_congr fun m _ => ?_
    by_cases hm : m.1 ∈ names
    · simp [hm, ne_of_mem_of_not_mem hm hkey]
    · simp [hm]
  | arr _ | null | bool _ | int _ | float _ | str _ => rfl

theorem slot_without_self {members : List (String × Json)} :
    slot [key] i (without key (obj members)) = some none := by
  have hnone : ((members.filter fun m => m.1 ≠ key).filter fun m => m.1 ∈ [key]) = [] := by
    rw [List.filter_filter, List.filter_eq_nil_iff]
    simp
  simp only [without, slot, given, hnone]

theorem slot_changed (hkey : key ∉ names) : slot names i (changed key f j) = slot names i j := by
  cases j with
  | obj members =>
    refine given_congr ?_
    induction members with
    | nil => rfl
    | cons m members ih =>
      by_cases hm : m.1 = key
      · have hnot : m.1 ∉ names := hm ▸ hkey
        simp [hm, hm ▸ hnot, ih]
      · simp only [List.map_cons, if_neg hm, List.filter_cons, ih]
  | arr _ | null | bool _ | int _ | float _ | str _ => rfl

theorem filter_changed (members : List (String × Json)) :
    ((members.map fun m => if m.1 = key then (m.1, f m.2) else m).filter fun m => m.1 ∈ [key]) =
      (members.filter fun m => m.1 ∈ [key]).map fun m => (m.1, f m.2) := by
  simp only [List.mem_singleton]
  induction members with
  | nil => rfl
  | cons m members ih =>
    by_cases hm : m.1 = key
    · simp [hm, ih]
    · simp [hm, ih]

theorem slot_changed_self (hj : isObject j = true) :
    slot [key] i (changed key f j) = (slot [key] i j).map (Option.map f) := by
  cases j with
  | obj members =>
    simp only [changed, slot, given, filter_changed]
    generalize (members.filter fun m => m.1 ∈ [key]) = named
    rcases named with _ | ⟨m, _ | ⟨m', l⟩⟩ <;> rfl
  | arr _ | null | bool _ | int _ | float _ | str _ => cases hj

theorem field_congr {α : Type*} {read : Json → Option α} {j' : Json}
    (h : slot names i j = slot names i j') : field names i read j = field names i read j' := by
  rw [field, field, h]

theorem fieldOr_congr {α : Type*} {absent : α} {read : Json → Option α} {j' : Json}
    (h : slot names i j = slot names i j') :
    fieldOr names i absent read j = fieldOr names i absent read j' := by
  rw [fieldOr, fieldOr, h]

theorem itemsFit_eachItem (h : ∀ x, fits n (f x) = fits n x) :
    itemsFit n (eachItem f j) = itemsFit n j := by
  cases j with
  | arr js =>
    simp only [eachItem, itemsFit, List.all_map]
    exact congrArg js.all (funext h)
  | obj _ | null | bool _ | int _ | float _ | str _ => rfl

theorem items_eachItem {α : Type*} {read : Json → Option α} :
    items read (eachItem f j) = items (fun x => read (f x)) j := by
  cases j with
  | arr js =>
    simp only [eachItem, items, List.mapM_map]
    rfl
  | obj _ | null | bool _ | int _ | float _ | str _ => rfl

end Json

/-! ## Lists read item by item -/

theorem mapM_eq_some_cons {α β : Type*} {f : α → Option β} {a : α} {l : List α} {r : List β} :
    (a :: l).mapM f = some r ↔ ∃ b r', f a = some b ∧ l.mapM f = some r' ∧ r = b :: r' := by
  simp only [List.mapM_cons, Option.bind_eq_bind, Option.bind_eq_some_iff, Option.pure_def,
    Option.some.injEq, eq_comm (a := r)]
  exact ⟨fun ⟨b, hb, r', hr, he⟩ => ⟨b, r', hb, hr, he⟩, fun ⟨b, r', hb, hr, he⟩ => ⟨b, hb, r', hr, he⟩⟩

theorem exists_mapM {α β γ : Type*} {f : α → Option β} {g : α → Option γ} {p : γ → Prop}
    (h : ∀ a b, f a = some b → ∃ c, g a = some c ∧ p c) {l : List α} {r : List β}
    (hl : l.mapM f = some r) : ∃ r', l.mapM g = some r' ∧ ∀ c ∈ r', p c := by
  induction l generalizing r with
  | nil => exact ⟨[], rfl, nofun⟩
  | cons a l ih =>
    obtain ⟨b, r', hb, hr, rfl⟩ := mapM_eq_some_cons.mp hl
    obtain ⟨c, hc, hp⟩ := h a b hb
    obtain ⟨cs, hcs, hps⟩ := ih hr
    exact ⟨c :: cs, mapM_eq_some_cons.mpr ⟨c, cs, hc, hcs, rfl⟩, List.forall_mem_cons.mpr ⟨hp, hps⟩⟩

/-- What one reader yields on the items that another has read. -/
theorem mapM_of_mapM {α β γ : Type*} {f : α → Option β} {g : α → Option γ} {φ : β → γ} {p : α → Bool}
    {l : List α} {r : List β} (hl : l.mapM f = some r)
    (h : ∀ a b, f a = some b → g a = if p a then some (φ b) else none) :
    l.mapM g = if l.all p then some (r.map φ) else none := by
  induction l generalizing r with
  | nil =>
    cases hl
    rfl
  | cons a l ih =>
    obtain ⟨b, r', hb, hr, rfl⟩ := mapM_eq_some_cons.mp hl
    rw [List.mapM_cons, h a b hb, ih hr, List.all_cons]
    cases p a <;> cases l.all p <;> rfl

namespace Json

theorem items_map {α β : Type*} {read : Json → Option β} {write : α → Json} {φ : α → β} (l : List α)
    (h : ∀ a, read (write a) = some (φ a)) : items read (arr (l.map write)) = some (l.map φ) := by
  rw [items, List.mapM_map]
  induction l with
  | nil => rfl
  | cons a l ih => exact mapM_eq_some_cons.mpr ⟨φ a, _, h a, ih, rfl⟩

/-- A list field read by a reader that takes the items of at most `n` places that another takes. -/
theorem field_items {α β : Type*} {names : List String} {i n : ℕ} {j : Json} {l : List α}
    {read : Json → Option α} {read' : Json → Option β} {φ : α → β}
    (hl : j.field names i (items read) = some l)
    (h : ∀ x a, read x = some a → read' x = if x.fits n then some (φ a) else none) :
    j.field names i (items read') = if j.fieldFits names i n then some (l.map φ) else none := by
  obtain ⟨v, hv, hread⟩ := Option.bind_eq_some_iff.mp hl
  obtain ⟨x, rfl, hx⟩ := Option.bind_eq_some_iff.mp hread
  rw [field, fieldFits, hv]
  cases x with
  | arr js => exact mapM_of_mapM hx h
  | obj _ | null | bool _ | int _ | float _ | str _ => cases hx

end Json

end KaChatIndexer.JsonReading
