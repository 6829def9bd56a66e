-- The type-erased error of the macro subsystem. `Error` boxes a value of any type
-- that implements `MacroError`: the `StringError` of `Error::message`, an error type
-- of the program, or an `Error` itself. Its `==`, `hash` and `clone` go through the box, and
-- keep the laws of the boxed types' own impls.
import EmbedLang.Ast

namespace embed_lang.macros

open embed_lang.ast

/-- The error types a program boxes in `Error`, with the `==`, `hash` and `clone` of their own
impls, as the blanket `impl<T> MacroError for T` asks of them. `hash` is the sequence of words
it feeds the hasher. -/
structure ErrorTypes where
  Tag : Type
  [tagEq : DecidableEq Tag]
  Val : Tag → Type
  eq : (t : Tag) → Val t → Val t → Bool
  hash : (t : Tag) → Val t → List Nat
  clone : (t : Tag) → Val t → Val t

attribute [instance] ErrorTypes.tagEq

/-- The error types of a program that boxes none of its own: its errors are messages. -/
def ErrorTypes.none : ErrorTypes where
  Tag := Empty
  Val := Empty.elim
  eq t := t.elim
  hash t := t.elim
  clone t := t.elim

/-- `macros::Error`, a `Box<dyn MacroError>`, by the type of what it boxes. -/
inductive Error (U : ErrorTypes) where
  /-- `Error::message(s)`: a boxed `StringError(s)`. -/
  | string (s : String)
  /-- `Error::new(v)` for a value `v` of the error type `t`. -/
  | boxed (t : U.Tag) (v : U.Val t)
  /-- `Error::new(e)` for an `Error` `e`. -/
  | nested (e : Error U)

/-- `Error::message`. -/
def Error.message {U : ErrorTypes} (s : String) : Error U := .string s

/-- `SpannedError`: an error at the span it is reported at. -/
abbrev SpannedError (U : ErrorTypes) := Span × Error U

/-! ## Equality, hashing and cloning -/

section

variable {U : ErrorTypes}

/-- The type of the value an `Error` boxes, as `downcast_ref` tells types apart. -/
inductive ErrorType (U : ErrorTypes) where
  | stringError
  | boxed (t : U.Tag)
  | error

/-- The type of the boxed value. -/
def Error.errorType : Error U → ErrorType U
  | .string _ => .stringError
  | .boxed t _ => .boxed t
  | .nested _ => .error

/-- `PartialEq for Error`: the boxed value's `eq_error`, which downcasts the other box to its own
type and compares the two with that type's `==`. -/
def Error.eq : Error U → Error U → Bool
  | .string s, .string s' => s == s'
  | .boxed t v, .boxed t' v' => if h : t' = t then U.eq t v (h ▸ v') else false
  | .nested e, .nested e' => e.eq e'
  | _, _ => false

/-- `Hash for Error`: what the boxed value's `hash_error` feeds the hasher, that of its own `Hash`;
a `String` feeds its bytes and then `0xff`. -/
def Error.hash : Error U → List Nat
  | .string s => s.toUTF8.toList.map (·.toNat) ++ [0xff]
  | .boxed t v => U.hash t v
  | .nested e => e.hash

/-- `Clone for Error`: the boxed value's `clone_error`, a new box of its `clone`. -/
def Error.clone : Error U → Error U
  | .string s => .string s
  | .boxed t v => .boxed t (U.clone t v)
  | .nested e => .nested e.clone

/-- The laws of the boxed types' own impls: each `==` is an equivalence, `hash` agrees with it,
and `clone` gives an equal value. -/
structure ErrorTypes.Lawful (U : ErrorTypes) : Prop where
  eq_refl : ∀ t v, U.eq t v v = true
  eq_symm : ∀ t v w, U.eq t v w = true → U.eq t w v = true
  eq_trans : ∀ t u v w, U.eq t u v = true → U.eq t v w = true → U.eq t u w = true
  hash_eq : ∀ t v w, U.eq t v w = true → U.hash t v = U.hash t w
  clone_eq : ∀ t v, U.eq t (U.clone t v) v = true

theorem Error.eq_boxed {t t' : U.Tag} {v : U.Val t} {v' : U.Val t'}
    (h : (Error.boxed t v).eq (.boxed t' v') = true) : ∃ h : t' = t, U.eq t v (h ▸ v') = true := by
  unfold Error.eq at h
  split at h
  · exact ⟨‹_›, h⟩
  · cases h

section

variable (hU : U.Lawful)
include hU

theorem Error.eq_refl (a : Error U) : a.eq a = true := by
  induction a with
  | string s => exact beq_self_eq_true s
  | boxed t v => simpa [Error.eq] using hU.eq_refl t v
  | nested e ih => exact ih

theorem Error.eq_symm (a b : Error U) (h : a.eq b = true) : b.eq a = true := by
  induction a, b using Error.eq.induct with
  | case1 s s' =>
    simp only [Error.eq, beq_iff_eq] at h ⊢
    exact h.symm
  | case2 t v' v => simpa [Error.eq] using hU.eq_symm t v v' (by simpa [Error.eq] using h)
  | case3 t v t' v' hne => simp [Error.eq, hne] at h
  | case4 e e' ih => exact ih h
  | case5 a b h1 h2 h3 => simp [Error.eq.eq_4 a b h1 h2 h3] at h

theorem Error.eq_trans (a b c : Error U) (hab : a.eq b = true) (hbc : b.eq c = true) :
    a.eq c = true := by
  induction a, b using Error.eq.induct generalizing c with
  | case1 s s' => cases c <;> simp_all [Error.eq]
  | case2 t v' v =>
    cases c with
    | boxed t'' v'' =>
      obtain ⟨rfl, hbc⟩ := Error.eq_boxed hbc
      simpa [Error.eq] using hU.eq_trans _ _ _ _ (by simpa [Error.eq] using hab) hbc
    | _ => cases hbc
  | case3 t v t' v' hne => simp [Error.eq, hne] at hab
  | case4 e e' ih =>
    cases c with
    | nested e'' => exact ih e'' hab hbc
    | _ => cases hbc
  | case5 a b h1 h2 h3 => simp [Error.eq.eq_4 a b h1 h2 h3] at hab

theorem Error.hash_eq_of_eq (a b : Error U) (h : a.eq b = true) : a.hash = b.hash := by
  induction a, b using Error.eq.induct with
  | case1 s s' => simp_all [Error.eq, Error.hash]
  | case2 t v' v => exact hU.hash_eq t v v' (by simpa [Error.eq] using h)
  | case3 t v t' v' hne => simp [Error.eq, hne] at h
  | case4 e e' ih => exact ih h
  | case5 a b h1 h2 h3 => simp [Error.eq.eq_4 a b h1 h2 h3] at h

theorem Error.clone_eq (a : Error U) : a.clone.eq a = true := by
  induction a with
  | string s => exact beq_self_eq_true s
  | boxed t v => simpa [Error.clone, Error.eq] using hU.clone_eq t v
  | nested e ih => exact ih

end

/-- Errors that box values of different types are never equal. -/
theorem Error.eq_of_errorType_ne (a b : Error U) (h : a.errorType ≠ b.errorType) :
    a.eq b = false := by
  induction a, b using Error.eq.induct with
  | case3 t v t' v' hne => simp [Error.eq, hne]
  | case5 a b h1 h2 h3 => exact Error.eq.eq_4 a b h1 h2 h3
  | _ => exact absurd rfl h

/-- When the boxed types keep their laws, `Error`'s `==` is an equivalence that tells boxed types
apart, `hash` agrees with it, and `clone` gives an equal error. -/
theorem Error.eq_hash_clone_laws (U : ErrorTypes) (hU : U.Lawful) :
    (∀ a : Error U, a.eq a = true) ∧
      (∀ a b : Error U, a.eq b = true → b.eq a = true) ∧
      (∀ a b c : Error U, a.eq b = true → b.eq c = true → a.eq c = true) ∧
      (∀ a b : Error U, a.errorType ≠ b.errorType → a.eq b = false) ∧
      (∀ a b : Error U, a.eq b = true → a.hash = b.hash) ∧
      ∀ a : Error U, a.clone.eq a = true :=
  ⟨Error.eq_refl hU, Error.eq_symm hU, Error.eq_trans hU, Error.eq_of_errorType_ne,
    Error.hash_eq_of_eq hU, Error.clone_eq hU⟩

/-- A program whose one error type is `u64`, with its own `==`, `hash` and `clone`. -/
def ErrorTypes.u64 : ErrorTypes where
  Tag := Unit
  Val _ := Nat
  eq _ v w := Nat.beq v w
  hash _ v := [v]
  clone _ v := v

theorem ErrorTypes.u64_lawful : ErrorTypes.u64.Lawful where
  eq_refl _ v := Nat.beq_refl v
  eq_symm _ v w h := by
    rw [Nat.eq_of_beq_eq_true h]
    exact Nat.beq_refl w
  eq_trans _ u v w h h' := by
    rw [Nat.eq_of_beq_eq_true h, Nat.eq_of_beq_eq_true h']
    exact Nat.beq_refl w
  hash_eq _ v w h := by
    rw [Nat.eq_of_beq_eq_true h]
  clone_eq _ v := Nat.beq_refl v

/-- The laws for the errors of a program that boxes `u64` errors. -/
theorem Error.eq_hash_clone_laws_u64 :
    ErrorTypes.u64.Lawful ∧
      (∀ a : Error ErrorTypes.u64, a.eq a = true) ∧
      (∀ a b : Error ErrorTypes.u64, a.eq b = true → b.eq a = true) ∧
      (∀ a b c : Error ErrorTypes.u64, a.eq b = true → b.eq c = true → a.eq c = true) ∧
      (∀ a b : Error ErrorTypes.u64, a.errorType ≠ b.errorType → a.eq b = false) ∧
      (∀ a b : Error ErrorTypes.u64, a.eq b = true → a.hash = b.hash) ∧
      ∀ a : Error ErrorTypes.u64, a.clone.eq a = true :=
  ⟨ErrorTypes.u64_lawful, Error.eq_hash_clone_laws ErrorTypes.u64 ErrorTypes.u64_lawful⟩

end

end embed_lang.macros
