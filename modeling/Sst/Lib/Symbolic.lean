import Mathlib.Data.Sym.Sym2

/-!
# Symbolic cryptography

The terms of an ideal cryptography: hashes and derived keys are injective, random strings are no
hashes, a sealed body opens under its own keys only, and the secret of two key pairs is symmetric
in them.

* `Nonce`: random strings and hashes.
* `Sealed`: an encrypted and authenticated body.
* `Signature`: a signed digest.
* `secret`: the shared secret of two key pairs.
-/

namespace Symbolic

/-- Random strings, and hashes of strings. -/
inductive Nonce
  | random (n : ℕ)
  | hash (x : Nonce)
  deriving DecidableEq

theorem Nonce.random_ne_hash (n : ℕ) (x : Nonce) : Nonce.random n ≠ .hash x := nofun

/-- A body encrypted under one key and authenticated under another. -/
structure Sealed (κ α : Type*) where
  enckey : κ
  mackey : κ
  body : α
  deriving DecidableEq

namespace Sealed

variable {κ α : Type*} [DecidableEq κ]

/-- Check the authentication. -/
def verify (x : Sealed κ α) (mackey : κ) : Bool := mackey = x.mackey

/-- Decrypt; under another key there is no body. -/
def decrypt (x : Sealed κ α) (enckey : κ) : Option α := if enckey = x.enckey then x.body else none

@[simp] theorem verify_iff (x : Sealed κ α) (mackey : κ) :
    x.verify mackey = true ↔ mackey = x.mackey := decide_eq_true_iff

@[simp] theorem decrypt_eq_some {x : Sealed κ α} {enckey : κ} {b : α} :
    x.decrypt enckey = some b ↔ enckey = x.enckey ∧ x.body = b := by
  simp [decrypt]

end Sealed

/-- A digest signed by the holder of a key. -/
structure Signature (κ α : Type*) where
  key : κ
  digest : α
  deriving DecidableEq

/-- Check a signature. -/
def Signature.verify {κ α : Type*} [DecidableEq κ] [DecidableEq α] (x : Signature κ α) (key : κ)
    (digest : α) : Bool := x.key = key ∧ x.digest = digest

/-- The shared secret of the key pairs with the given public keys. -/
def secret {κ : Type*} (own other : κ) : Sym2 κ := s(own, other)

end Symbolic
