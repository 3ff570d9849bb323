import MeshSupervisor.Lib.Wire

/-! # Digital signatures

`Scheme K I S` is what a program relies on of a signature library with secret keys `K`,
public ids `I` and signatures `S`: what a key signs verifies under its id.

That nobody else can produce such a signature is not a law of the scheme but an assumption
about what is on the wire: `Unforged p bodies wire` says that whatever on the wire verifies
under `p` is one of the byte strings `p` signed.  It bounds the bytes only, so a scheme may
have several signatures of one message.

`symbolic` is the ideal scheme, in which a signature is the pair of signer and message. -/

namespace Signature

open Wire (Bytes)

class Scheme (K : Type) (I S : outParam Type) where
  pub : K → I
  sign : K → Bytes → S
  verify : I → Bytes → S → Bool
  verify_sign : ∀ k m, verify (pub k) m (sign k m) = true

attribute [simp] Scheme.verify_sign

/-- Every message of the wire that verifies under `p` is among the messages `p` signed. -/
def Unforged {I S : Type} (verify : I → Bytes → S → Bool) (p : I) (bodies : List Bytes)
    (wire : List (Bytes × S)) : Prop :=
  ∀ m ∈ wire, verify p m.1 m.2 = true → m.1 ∈ bodies

instance {I S : Type} (verify : I → Bytes → S → Bool) (p : I) (bodies : List Bytes)
    (wire : List (Bytes × S)) : Decidable (Unforged verify p bodies wire) :=
  inferInstanceAs (Decidable (∀ m ∈ wire, verify p m.1 m.2 = true → m.1 ∈ bodies))

/-- The ideal scheme: a signature names its signer and its message. -/
@[reducible] def symbolic (K : Type) [DecidableEq K] : Scheme K K (K × Bytes) where
  pub := id
  sign k m := (k, m)
  verify k m s := s == (k, m)
  verify_sign _ _ := beq_self_eq_true _

end Signature
