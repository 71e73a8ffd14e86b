import Mathlib.Tactic

/-!
# Panicking computations over machine integers

A contract entry point either returns a value or panics, and a panic undoes
everything the invocation did.  Both halves are an `Except String`: `ensure`
is `assert!`, `expect` is `Option::expect`, and a bind runs the rest of the
body only when the part before it returned.

The integers are mathematical integers with the machine bounds written out:

* `checkedAdd`, `checkedSub`, `checkedMul` are the `i128` operations that
  return `None` outside the range;
* `saturatingSub`, `saturatingMul` clamp to the `i128` range, and
  `saturatingAddU64` clamps to the `u64` range;
* unsigned saturating subtraction is the truncated subtraction of `Nat`.
-/

namespace Paystream
namespace Library

/-! ## Panics -/

/-- `assert!(condition, message)`. -/
def ensure (condition : Bool) (message : String) : Except String Unit :=
  if condition then .ok () else .error message

/-- `option.expect(message)`. -/
def expect {α : Type} (value : Option α) (message : String) :
    Except String α :=
  match value with
  | some a => .ok a
  | none => .error message

@[simp] theorem ensure_eq_ok_iff (condition : Bool) (message : String)
    (result : Unit) :
    ensure condition message = .ok result ↔ condition = true := by
  cases condition <;> simp [ensure]

@[simp] theorem expect_eq_ok_iff {α : Type} (value : Option α)
    (message : String) (a : α) :
    expect value message = .ok a ↔ value = some a := by
  cases value <;> simp [expect]

/-- A bind returns exactly when its first half returned some value and the
second half returned on that value. -/
@[simp] theorem bind_eq_ok_iff {α β : Type} (x : Except String α)
    (f : α → Except String β) (b : β) :
    (x >>= f) = .ok b ↔ ∃ a, x = .ok a ∧ f a = .ok b := by
  cases x with
  | error message => simp [bind, Except.bind]
  | ok a => simp [bind, Except.bind]

/-- A bind panics in its first half, or in the second after the first
returned. -/
theorem bind_eq_error_iff {α β : Type} (x : Except String α)
    (f : α → Except String β) (message : String) :
    (x >>= f) = .error message ↔
      x = .error message ∨ ∃ a, x = .ok a ∧ f a = .error message := by
  cases x with
  | error found => simp [bind, Except.bind]
  | ok a => simp [bind, Except.bind]

theorem ensure_eq_error_iff (condition : Bool) (message found : String) :
    ensure condition message = .error found ↔
      condition = false ∧ message = found := by
  cases condition <;> simp [ensure]

theorem expect_eq_error_iff {α : Type} (value : Option α)
    (message found : String) :
    expect value message = .error found ↔ value = none ∧ message = found := by
  cases value <;> simp [expect]

@[simp] theorem pure_eq_ok_iff {α : Type} (a b : α) :
    (pure a : Except String α) = .ok b ↔ a = b := by
  simp [pure, Except.pure]

@[simp] theorem map_eq_ok_iff {α β : Type} (f : α → β) (x : Except String α)
    (b : β) : x.map f = .ok b ↔ ∃ a, x = .ok a ∧ f a = b := by
  cases x with
  | error message => simp [Except.map]
  | ok a => simp [Except.map]

/-- A check followed by a result that does not depend on it. -/
theorem check_then_return_iff {α : Type} (check : Except String Unit)
    (a b : α) :
    (check >>= fun _ => pure a) = .ok b ↔ check = .ok () ∧ b = a := by
  simp only [bind_eq_ok_iff, pure_eq_ok_iff]
  constructor
  · rintro ⟨_, hcheck, rfl⟩
    exact ⟨hcheck, rfl⟩
  · rintro ⟨hcheck, rfl⟩
    exact ⟨(), hcheck, rfl⟩

/-- The computation returns; it does not panic. -/
def Returns {α : Type} (x : Except String α) : Prop := ∃ a, x = .ok a

theorem Returns.of_eq {α : Type} {x : Except String α} {a : α} (h : x = .ok a) :
    Returns x :=
  ⟨a, h⟩

/-- A body returns when its first step returned and the rest of it does. -/
theorem Returns.bind {α β : Type} {x : Except String α}
    {f : α → Except String β} {a : α} (hx : x = .ok a) (hf : Returns (f a)) :
    Returns (x >>= f) := by
  obtain ⟨b, hb⟩ := hf
  exact ⟨b, (bind_eq_ok_iff x f b).mpr ⟨a, hx, hb⟩⟩

theorem Returns.map {α β : Type} {x : Except String α} (hx : Returns x)
    (f : α → β) : Returns (x.map f) := by
  obtain ⟨a, ha⟩ := hx
  exact ⟨f a, (map_eq_ok_iff f x (f a)).mpr ⟨a, ha, rfl⟩⟩

/-- A body returns when the assertion it starts with holds and the rest of it
does. -/
theorem Returns.ensure {α : Type} {condition : Bool} {message : String}
    {f : Unit → Except String α} (hcondition : condition = true)
    (hf : Returns (f ())) : Returns (Library.ensure condition message >>= f) :=
  Returns.bind ((ensure_eq_ok_iff condition message ()).mpr hcondition) hf

/-! ## Signed 128-bit integers -/

def i128Max : Int := 2 ^ 127 - 1

def i128Min : Int := -2 ^ 127

/-- The range of `i128`. -/
def InI128 (a : Int) : Prop := i128Min ≤ a ∧ a ≤ i128Max

instance (a : Int) : Decidable (InI128 a) :=
  inferInstanceAs (Decidable (i128Min ≤ a ∧ a ≤ i128Max))

/-- The result of an exact `i128` operation, or `None` on overflow. -/
def checked (a : Int) : Option Int := if InI128 a then some a else none

def checkedAdd (a b : Int) : Option Int := checked (a + b)

def checkedSub (a b : Int) : Option Int := checked (a - b)

def checkedMul (a b : Int) : Option Int := checked (a * b)

/-- Clamp to the range of `i128`. -/
def saturate (a : Int) : Int := max i128Min (min a i128Max)

def saturatingSub (a b : Int) : Int := saturate (a - b)

def saturatingMul (a b : Int) : Int := saturate (a * b)

@[simp] theorem checked_eq_some_iff (a b : Int) :
    checked a = some b ↔ InI128 a ∧ a = b := by
  unfold checked
  split <;> simp_all

@[simp] theorem checkedAdd_eq_some_iff (a b c : Int) :
    checkedAdd a b = some c ↔ InI128 (a + b) ∧ a + b = c :=
  checked_eq_some_iff (a + b) c

theorem checkedSub_eq_some_iff (a b c : Int) :
    checkedSub a b = some c ↔ InI128 (a - b) ∧ a - b = c :=
  checked_eq_some_iff (a - b) c

@[simp] theorem checkedMul_eq_some_iff (a b c : Int) :
    checkedMul a b = some c ↔ InI128 (a * b) ∧ a * b = c :=
  checked_eq_some_iff (a * b) c

/-- Subtracting inside `0 ≤ b ≤ a ≤ i128::MAX` never overflows. -/
theorem checkedSub_of_le {a b : Int} (hb : 0 ≤ b) (hba : b ≤ a)
    (ha : a ≤ i128Max) : checkedSub a b = some (a - b) := by
  have hrange : InI128 (a - b) := by
    constructor
    · have hmin : i128Min ≤ 0 := by decide
      omega
    · omega
  simp [checkedSub, hrange]

theorem saturate_of_inI128 {a : Int} (ha : InI128 a) : saturate a = a := by
  obtain ⟨hlow, hhigh⟩ := ha
  unfold saturate
  omega

/-! ## Unsigned integers -/

def u32Max : Nat := 2 ^ 32 - 1

def u64Max : Nat := 2 ^ 64 - 1

/-- `u64::saturating_add`. -/
def saturatingAddU64 (a b : Nat) : Nat := min (a + b) u64Max

/-- `u64::checked_add`; the plain `+` of `u64` panics in the same cases,
since the release profile keeps overflow checks on. -/
def checkedAddU64 (a b : Nat) : Option Nat :=
  if a + b ≤ u64Max then some (a + b) else none

/-- The plain `+` of `u32`, with overflow checks on. -/
def checkedAddU32 (a b : Nat) : Option Nat :=
  if a + b ≤ u32Max then some (a + b) else none

/-- `value as u64` for a signed value. -/
def castU64 (a : Int) : Nat := (a % 2 ^ 64).toNat

/-- `value as u32` for an unsigned value. -/
def castU32 (a : Nat) : Nat := a % 2 ^ 32

@[simp] theorem checkedAddU64_eq_some_iff (a b c : Nat) :
    checkedAddU64 a b = some c ↔ a + b ≤ u64Max ∧ a + b = c := by
  unfold checkedAddU64
  split <;> simp_all

theorem saturatingAddU64_of_le {a b : Nat} (h : a + b ≤ u64Max) :
    saturatingAddU64 a b = a + b := by
  unfold saturatingAddU64
  omega

/-- A `u64` number of seconds times a rate of at most `10^9` stays inside
`i128`. -/
theorem inI128_mul_of_le {seconds : Nat} {rate bound : Int}
    (hseconds : seconds ≤ u64Max) (hrate : 0 ≤ rate)
    (hbound : rate ≤ bound) (hsmall : (u64Max : Int) * bound ≤ i128Max) :
    InI128 ((seconds : Int) * rate) := by
  have hcast : (seconds : Int) ≤ (u64Max : Int) := by
    exact_mod_cast hseconds
  have hprod : (seconds : Int) * rate ≤ (u64Max : Int) * bound :=
    mul_le_mul hcast hbound hrate (by positivity)
  have hnonneg : 0 ≤ (seconds : Int) * rate := by positivity
  have hmin : i128Min ≤ 0 := by decide
  exact ⟨hmin.trans hnonneg, hprod.trans hsmall⟩

end Library
end Paystream
