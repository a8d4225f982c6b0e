import Mathlib.Data.List.Basic
import Mathlib.Data.List.Perm.Basic
import Mathlib.Data.List.Nodup
import Mathlib.Algebra.BigOperators.Group.List
import Mathlib.Order.Basic
import Mathlib.Algebra.Order.Ring.Nat

/-!
# Rust primitives of the danmu code

The statistics code and the collection service use a handful of standard-library
values; this module fixes their meaning once.

- `u64`/`usize` values are natural numbers below `2 ^ 64`. The saturating operations
  clamp at `u64Max`; a wrapping `+=` is `wrappingAdd`. Signed `i64` division panics
  (`none`) on a zero divisor and on `i64::MIN / -1`, as Rust does in every profile.
- `HashMap<String, V>` (and `DashMap<String, V>`) is the list of its entries in
  iteration order. Every map the code builds has distinct keys (`keys_nodup_*`).
- `Result<T, E>` keeps the error's message only.
- `DateTime<Utc>` is a whole-second timestamp inside chrono's range and a
  nanosecond part.
-/

namespace RustSrec

/-! ## Machine integers -/

/-- `u64::MAX` (also `usize::MAX` on the 64-bit targets the code runs on). -/
def u64Max : Nat := 2 ^ 64 - 1

/-- `u64::saturating_add`. -/
def saturatingAdd (a b : Nat) : Nat := min (a + b) u64Max

/-- `usize::saturating_mul`. -/
def saturatingMul (a b : Nat) : Nat := min (a * b) u64Max

/-- `+=` on `u64` in a release build: it wraps. -/
def wrappingAdd (a b : Nat) : Nat := (a + b) % 2 ^ 64

/-- `usize::next_power_of_two` in a release build: the least power of two `≥ a`, and
`0` where that overflows. -/
def nextPowerOfTwo (a : Nat) : Nat := if a ≤ 2 ^ 63 then a.nextPowerOfTwo else 0

/-- `u64 as i64`: the two's-complement reading of the low 64 bits. -/
def asI64 (a : Nat) : Int :=
  if a % 2 ^ 64 < 2 ^ 63 then (a % 2 ^ 64 : Nat) else (a % 2 ^ 64 : Nat) - 2 ^ 64

/-- `i64::MIN`. -/
def i64Min : Int := -2 ^ 63

/-- `/` on `i64`: truncating division, a panic on a zero divisor or on overflow. -/
def i64Div (a b : Int) : Option Int :=
  if b = 0 ∨ (a = i64Min ∧ b = -1) then none else some (a.tdiv b)

theorem saturatingAdd_le (a b : Nat) : saturatingAdd a b ≤ u64Max := Nat.min_le_right _ _

theorem saturatingAdd_of_le {a b : Nat} (h : a + b ≤ u64Max) : saturatingAdd a b = a + b :=
  Nat.min_eq_left h

theorem le_saturatingAdd {a b : Nat} (h : a ≤ u64Max) : a ≤ saturatingAdd a b := by
  unfold saturatingAdd; omega

theorem saturatingAdd_le_add (a b : Nat) : saturatingAdd a b ≤ a + b := Nat.min_le_left _ _

theorem wrappingAdd_of_lt {a b : Nat} (h : a + b < 2 ^ 64) : wrappingAdd a b = a + b :=
  Nat.mod_eq_of_lt h

theorem i64Div_eq_some {a b : Int} (hb : b ≠ 0) (ha : a ≠ i64Min) : i64Div a b = some (a.tdiv b) := by
  simp [i64Div, hb, ha]

/-! ## `HashMap` -/

/-- A `HashMap<String, V>`: its entries, in the order `iter()` visits them. -/
structure HashMap (V : Type) where
  entries : List (String × V)
  deriving DecidableEq, Repr

namespace HashMap

variable {V : Type}

/-- `HashMap::new()`. -/
def new : HashMap V := ⟨[]⟩

def keys (m : HashMap V) : List String := m.entries.map Prod.fst

/-- `len()`. -/
def len (m : HashMap V) : Nat := m.entries.length

/-- `get(key)` (and the entry `get_mut` hands out). -/
def get (m : HashMap V) (k : String) : Option V :=
  (m.entries.find? fun e => e.1 == k).map Prod.snd

/-- `contains_key(key)`. -/
def containsKey (m : HashMap V) (k : String) : Bool := (m.get k).isSome

/-- `remove(key)`, the map it leaves; the value it returns is `m.get k`. -/
def remove (m : HashMap V) (k : String) : HashMap V := ⟨m.entries.filter fun e => e.1 != k⟩

/-- `insert(key, value)`. -/
def insert (m : HashMap V) (k : String) (v : V) : HashMap V := ⟨(m.remove k).entries ++ [(k, v)]⟩

/-- An update through `get_mut(key)`. -/
def modify (m : HashMap V) (k : String) (f : V → V) : HashMap V :=
  ⟨m.entries.map fun e => if e.1 = k then (e.1, f e.2) else e⟩

@[simp] theorem entries_new : (new : HashMap V).entries = [] := rfl

theorem len_eq (m : HashMap V) : m.len = m.entries.length := rfl

theorem keys_eq (m : HashMap V) : m.keys = m.entries.map Prod.fst := rfl

@[simp] theorem entries_remove (m : HashMap V) (k : String) :
    (m.remove k).entries = m.entries.filter fun e => e.1 != k := rfl

@[simp] theorem entries_insert (m : HashMap V) (k : String) (v : V) :
    (m.insert k v).entries = (m.entries.filter fun e => e.1 != k) ++ [(k, v)] := rfl

@[simp] theorem entries_modify (m : HashMap V) (k : String) (f : V → V) :
    (m.modify k f).entries = m.entries.map fun e => if e.1 = k then (e.1, f e.2) else e := rfl

theorem get_eq_none {m : HashMap V} {k : String} : m.get k = none ↔ k ∉ m.keys := by
  simp only [get, Option.map_eq_none', List.find?_eq_none, beq_iff_eq, keys_eq, List.mem_map]
  exact ⟨fun h ⟨e, he, hk⟩ => h e he hk, fun h e he hk => h ⟨e, he, hk⟩⟩

/-- What `get` returns is an entry, whether or not keys repeat. -/
theorem mem_entries_of_get {m : HashMap V} {k : String} {v : V} (h : m.get k = some v) :
    (k, v) ∈ m.entries := by
  simp only [get, Option.map_eq_some'] at h
  obtain ⟨⟨k', v'⟩, he, rfl⟩ := h
  obtain rfl : k' = k := by simpa using List.find?_some he
  exact List.mem_of_find?_eq_some he

theorem get_eq_some {m : HashMap V} {k : String} {v : V} (h : m.keys.Nodup) :
    m.get k = some v ↔ (k, v) ∈ m.entries := by
  obtain ⟨l⟩ := m
  simp only [keys_eq] at h
  induction l with
  | nil => simp [get]
  | cons e l ih =>
    obtain ⟨k', v'⟩ := e
    simp only [List.map_cons, List.nodup_cons, List.mem_map] at h
    by_cases hk : k' = k
    · subst hk
      have : ∀ w, (k', w) ∉ l := fun w hw => h.1 ⟨_, hw, rfl⟩
      simp [get, eq_comm, this]
    · simpa [get, hk, Ne.symm hk, -IsEmpty.exists_iff] using ih h.2

theorem keys_remove (m : HashMap V) (k : String) :
    (m.remove k).keys = m.keys.filter (· != k) := by
  simp [keys_eq, List.filter_map, Function.comp_def]

theorem keys_insert (m : HashMap V) (k : String) (v : V) :
    (m.insert k v).keys = m.keys.filter (· != k) ++ [k] := by
  simp [keys_eq, List.filter_map, Function.comp_def]

theorem mem_keys_insert {m : HashMap V} {k u : String} {v : V} :
    u ∈ (m.insert k v).keys ↔ u = k ∨ u ∈ m.keys := by
  by_cases h : u = k <;> simp [keys_insert, h]

@[simp] theorem keys_modify (m : HashMap V) (k : String) (f : V → V) :
    (m.modify k f).keys = m.keys := by
  simp only [keys_eq, entries_modify, List.map_map]
  congr 1
  funext e
  by_cases h : e.1 = k <;> simp [h]

theorem keys_nodup_remove {m : HashMap V} (h : m.keys.Nodup) (k : String) :
    (m.remove k).keys.Nodup := by
  rw [keys_remove]; exact h.filter _

theorem keys_nodup_insert {m : HashMap V} (h : m.keys.Nodup) (k : String) (v : V) :
    (m.insert k v).keys.Nodup := by
  rw [keys_insert]
  exact List.nodup_append.2 ⟨h.filter _, List.nodup_singleton k, by simp [List.disjoint_singleton]⟩

theorem mem_entries_remove {m : HashMap V} {k : String} {e : String × V} :
    e ∈ (m.remove k).entries ↔ e ∈ m.entries ∧ e.1 ≠ k := by
  simp

theorem mem_keys_remove {m : HashMap V} {k u : String} :
    u ∈ (m.remove k).keys ↔ u ∈ m.keys ∧ u ≠ k := by
  simp [keys_remove]

theorem entries_insert_of_not_mem {m : HashMap V} {k : String} (hk : k ∉ m.keys) (v : V) :
    (m.insert k v).entries = m.entries ++ [(k, v)] := by
  simp only [entries_insert, List.append_cancel_right_eq, List.filter_eq_self, bne_iff_ne, ne_eq]
  intro e he hek
  exact hk (hek ▸ List.mem_map_of_mem Prod.fst he)

theorem mem_keys_of_mem {m : HashMap V} {e : String × V} (h : e ∈ m.entries) : e.1 ∈ m.keys :=
  List.mem_map_of_mem _ h

@[simp] theorem get_insert_self (m : HashMap V) (k : String) (v : V) : (m.insert k v).get k = some v := by
  simp [get, List.find?_append, -IsEmpty.exists_iff]

theorem remove_of_not_mem {m : HashMap V} {k : String} (h : k ∉ m.keys) : m.remove k = m := by
  obtain ⟨l⟩ := m
  simp only [remove, HashMap.mk.injEq, List.filter_eq_self, bne_iff_ne, ne_eq]
  exact fun e he hk => h (hk ▸ mem_keys_of_mem he)

@[simp] theorem remove_insert (m : HashMap V) (k : String) (v : V) : (m.insert k v).remove k = m.remove k := by
  simp [insert, remove, List.filter_append]

theorem containsKey_eq_false {m : HashMap V} {k : String} : m.containsKey k = false ↔ k ∉ m.keys := by
  simp [containsKey, ← get_eq_none]

theorem mem_entries_modify {m : HashMap V} {k : String} {f : V → V} {e : String × V} :
    e ∈ (m.modify k f).entries ↔
      (∃ v, (k, v) ∈ m.entries ∧ e = (k, f v)) ∨ (e ∈ m.entries ∧ e.1 ≠ k) := by
  simp only [entries_modify, List.mem_map]
  constructor
  · rintro ⟨⟨k', v⟩, he, rfl⟩
    by_cases hk : k' = k
    · subst hk; exact .inl ⟨v, he, by simp⟩
    · exact .inr ⟨by simpa [hk] using he, by simp [hk]⟩
  · rintro (⟨v, he, rfl⟩ | ⟨he, hk⟩)
    · exact ⟨(k, v), he, by simp⟩
    · exact ⟨e, he, by simp [hk]⟩

theorem len_remove {m : HashMap V} {k : String} (h : m.keys.Nodup) (hk : k ∈ m.keys) :
    (m.remove k).len + 1 = m.len := by
  obtain ⟨l⟩ := m
  simp only [keys_eq, List.mem_map] at h hk
  simp only [len_eq, entries_remove]
  induction l with
  | nil => obtain ⟨_, ⟨⟩, _⟩ := hk
  | cons e l ih =>
    simp only [List.map_cons, List.nodup_cons, List.mem_map] at h
    by_cases he : e.1 = k
    · have : l.filter (fun e => e.1 != k) = l :=
        List.filter_eq_self.2 fun x hx => by simpa [← he] using fun hx' => h.1 ⟨x, hx, hx'⟩
      simp [he, this]
    · obtain ⟨x, hx, rfl⟩ := hk
      simp only [List.mem_cons] at hx
      rcases hx with rfl | hx
      · exact absurd rfl he
      · simpa [he] using ih h.2 ⟨x, hx, rfl⟩

theorem len_insert_of_not_mem {m : HashMap V} {k : String} (hk : k ∉ m.keys) (v : V) :
    (m.insert k v).len = m.len + 1 := by
  rw [len_eq, len_eq, entries_insert_of_not_mem hk, List.length_append, List.length_singleton]

section Total

variable (count : V → Nat)

/-- The sum of the counts a map holds. -/
def total (m : HashMap V) : Nat := (m.entries.map fun e => count e.2).sum

theorem total_insert_of_not_mem {m : HashMap V} {k : String} (hk : k ∉ m.keys) (v : V) :
    total count (m.insert k v) = total count m + count v := by
  rw [total, entries_insert_of_not_mem hk, List.map_append, List.sum_append]
  simp [total]

theorem total_remove {m : HashMap V} {k : String} {v : V} (h : m.keys.Nodup)
    (hk : (k, v) ∈ m.entries) : total count (m.remove k) + count v = total count m := by
  obtain ⟨l⟩ := m
  simp only [keys_eq] at h
  simp only [total, entries_remove]
  induction l with
  | nil => simp at hk
  | cons e l ih =>
    simp only [List.map_cons, List.nodup_cons, List.mem_map] at h
    simp only [List.mem_cons] at hk
    rcases hk with rfl | hk
    · have : l.filter (fun e => e.1 != k) = l :=
        List.filter_eq_self.2 fun x hx => by simpa using fun hx' => h.1 ⟨x, hx, hx'⟩
      simp [this, Nat.add_comm]
    · have he : e.1 ≠ k := fun he => h.1 ⟨(k, v), hk, he.symm⟩
      simp only [List.filter_cons, he, bne_iff_ne, ne_eq, not_false_eq_true, decide_True, ite_true,
        List.map_cons, List.sum_cons]
      rw [Nat.add_assoc, ih h.2 hk]

theorem total_modify {m : HashMap V} {k : String} {v : V} (f : V → V) (h : m.keys.Nodup)
    (hk : (k, v) ∈ m.entries) : total count (m.modify k f) + count v = total count m + count (f v) := by
  obtain ⟨l⟩ := m
  simp only [keys_eq] at h
  simp only [total, entries_modify]
  induction l with
  | nil => simp at hk
  | cons e l ih =>
    simp only [List.map_cons, List.nodup_cons, List.mem_map] at h
    simp only [List.mem_cons] at hk
    rcases hk with rfl | hk
    · have : l.map (fun e => if e.1 = k then (e.1, f e.2) else e) = l := by
        conv_rhs => rw [← List.map_id l]
        exact List.map_congr_left fun x hx => if_neg fun hx' => h.1 ⟨x, hx, hx'⟩
      simp only [ite_true, List.map_cons, List.sum_cons, this]
      omega
    · have he : e.1 ≠ k := fun he => h.1 ⟨(k, v), hk, he.symm⟩
      simp only [he, ite_false, List.map_cons, List.sum_cons]
      have := ih h.2 hk
      omega

theorem total_remove_le (m : HashMap V) (k : String) : total count (m.remove k) ≤ total count m := by
  obtain ⟨l⟩ := m
  induction l with
  | nil => simp [total]
  | cons e l ih =>
    by_cases he : e.1 = k
    · simp_all [total]
      omega
    · simp_all [total]

/-- `remove` takes away at least the entry `get` finds, whether or not keys repeat. -/
theorem total_remove_add_get_le (m : HashMap V) (k : String) :
    total count (m.remove k) + ((m.get k).map count).getD 0 ≤ total count m := by
  obtain ⟨l⟩ := m
  induction l with
  | nil => simp [total, get]
  | cons e l ih =>
    by_cases he : e.1 = k
    · have := total_remove_le count ⟨l⟩ k
      simp_all [total, get, Nat.add_comm]
    · simp_all [total, get]
      omega

theorem total_insert_le (m : HashMap V) (k : String) (v : V) :
    total count (m.insert k v) ≤ total count m + count v := by
  have := total_remove_le count m k
  simp_all [total]

theorem le_total_of_mem {m : HashMap V} {k : String} {v : V} (h : m.keys.Nodup)
    (hk : (k, v) ∈ m.entries) : count v ≤ total count m := by
  have := total_remove count h hk
  omega

theorem len_mul_le_total {m : HashMap V} {a : Nat} (h : ∀ e ∈ m.entries, a ≤ count e.2) :
    m.len * a ≤ total count m := by
  obtain ⟨l⟩ := m
  simp only [len_eq, total] at h ⊢
  induction l with
  | nil => simp
  | cons e l ih =>
    simp only [List.mem_cons, forall_eq_or_imp] at h
    simp only [List.length_cons, List.map_cons, List.sum_cons, Nat.succ_mul]
    have := ih h.2
    omega

end Total

end HashMap

/-! ## `Result` -/

/-- `Result<T, E>` where the error is carried as its message (`e.to_string()`). -/
inductive Result (α : Type) where
  | ok (value : α)
  | err (error : String)
  deriving DecidableEq, Repr

/-! ## `DateTime<Utc>` -/

/-- The first second chrono represents, `-262143-01-01T00:00:00Z`. -/
def minTimestamp : Int := -8334601228800

/-- The last second chrono represents, `+262142-12-31T23:59:59Z`. -/
def maxTimestamp : Int := 8210266876799

/-- A `DateTime<Utc>`: whole seconds since the epoch, inside chrono's range, and the
nanoseconds past that second. Leap-second instants, which chrono stores with a
nanosecond count past `10 ^ 9`, are left out. -/
structure DateTime where
  secs : Int
  nanos : Nat
  secs_ge : minTimestamp ≤ secs
  secs_le : secs ≤ maxTimestamp
  nanos_lt : nanos < 1000000000

namespace DateTime

theorem ext_iff' {a b : DateTime} : a = b ↔ a.secs = b.secs ∧ a.nanos = b.nanos := by
  cases a; cases b; simp

instance : DecidableEq DateTime := fun _ _ => decidable_of_iff _ ext_iff'.symm

instance : Repr DateTime := ⟨fun t _ => repr (t.secs, t.nanos)⟩

/-- `timestamp()`: whole seconds since the epoch. -/
def timestamp (t : DateTime) : Int := t.secs

/-- `DateTime::from_timestamp(secs, nsecs)`. -/
def fromTimestamp (secs : Int) (nsecs : Nat) : Option DateTime :=
  if h : minTimestamp ≤ secs ∧ secs ≤ maxTimestamp ∧ nsecs < 1000000000 then
    some ⟨secs, nsecs, h.1, h.2.1, h.2.2⟩
  else none

/-- `(a - b).num_seconds()`: the whole seconds of `a - b`, rounded toward zero. -/
def numSecondsSince (a b : DateTime) : Int :=
  ((a.secs - b.secs) * 1000000000 + ((a.nanos : Int) - b.nanos)).tdiv 1000000000

theorem fromTimestamp_eq_some {secs : Int} {nsecs : Nat} {t : DateTime}
    (h : fromTimestamp secs nsecs = some t) : t.secs = secs ∧ t.nanos = nsecs := by
  unfold fromTimestamp at h
  split at h
  · cases h; exact ⟨rfl, rfl⟩
  · cases h

theorem fromTimestamp_isSome {secs : Int} (h₁ : minTimestamp ≤ secs) (h₂ : secs ≤ maxTimestamp) :
    (fromTimestamp secs 0).isSome := by
  simp [fromTimestamp, h₁, h₂]

end DateTime

end RustSrec
