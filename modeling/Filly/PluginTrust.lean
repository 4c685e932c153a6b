import Filly.CJson

/-!
# Plugin signatures

`verify.c` compares the signatures of a file with the trusted keys by position: the
first one belongs to the built-in key and each following one to the next trusted
key. The file may hold as many signatures as there can be trusted keys.

`crypto_sign_verify_detached` is a parameter. A missing file is `none`. The clock
is read anew for each key.
-/
namespace Filly.Verify
open CJson

abbrev PublicKey := { b : Bytes // b.length = 32 }

abbrev Signature := { b : Bytes // b.length = 64 }

def maxTrustedKeys : ℕ := 8

structure TrustedKey where
  key : PublicKey
  owner : Bytes
  /-- A second of the clock; zero and less stand for a key without expiry. -/
  expiry : ℤ

/-- `trusted_keys` up to `trusted_key_count`. -/
structure TrustedKeys where
  keys : List TrustedKey
  bounded : keys.length ≤ maxTrustedKeys

def builtinKey : PublicKey :=
  ⟨[0x2b,0x0e,0xf7,0x23,0x05,0x58,0x60,0x52,0xfc,0xb1,0xdd,0x20,0x00,0x11,0xf4,0xe9,
    0xe5,0x6a,0x87,0x41,0xe2,0xb9,0x2a,0xd5,0x12,0x95,0xf0,0x23,0x0b,0xf6,0xb9,0x7f],rfl⟩

def verifyAddTrustedKey (t : TrustedKeys) (key : PublicKey) (owner : Option Bytes) (expiry : ℤ) :
    TrustedKeys :=
  if h : t.keys.length < maxTrustedKeys then
    ⟨t.keys++[⟨key,owner.getD (bytes "unknown"),expiry⟩],by simpa using h⟩
  else t

def verifyClearTrustedKeys : TrustedKeys := ⟨[],Nat.zero_le _⟩

def checkKeyExpired (tk : TrustedKey) (now : ℤ) : Bool := 0 < tk.expiry && tk.expiry < now

section
variable (verifyDetached : Bytes → Bytes → PublicKey → Bool) (clock : ℕ → ℤ)

/-- The signature at a position of the file. -/
def signatureAt (sigData : Bytes) (i : ℕ) : Bytes := (sigData.drop (64*i)).take 64

/-- The loop over the trusted keys, from the key with the number `i` on. -/
def verifyTrusted (sigData data : Bytes) : ℕ → List TrustedKey → Bool
  | _, [] => false
  | i, tk::tks =>
      if checkKeyExpired tk (clock i) then verifyTrusted sigData data (i+1) tks
      else if 64*(i+2) ≤ sigData.length && verifyDetached (signatureAt sigData (i+1)) data tk.key
      then true
      else verifyTrusted sigData data (i+1) tks

def verifyPluginSignature (trusted : TrustedKeys) (sigFile soFile : Option Bytes) : Bool :=
  match sigFile with
  | none => false
  | some sigData =>
      if 64*maxTrustedKeys < sigData.length then false
      else match soFile with
        | none => false
        | some data =>
            if 64 ≤ sigData.length && verifyDetached (signatureAt sigData 0) data builtinKey then true
            else verifyTrusted verifyDetached clock sigData data 0 trusted.keys

/-! ## Trust -/

/-- A key that may vouch for a plugin: the built-in one or a trusted one that has
not expired. -/
inductive Vouches (trusted : TrustedKeys) : PublicKey → Prop
  | builtin : Vouches trusted builtinKey
  | trusted {i : ℕ} {tk : TrustedKey} (hi : trusted.keys[i]? = some tk)
      (hexpired : checkKeyExpired tk (clock i) = false) : Vouches trusted tk.key

/-- Some signature of the file is one of such a key. -/
def Trusted (trusted : TrustedKeys) (sigs : List Signature) (data : Bytes) : Prop :=
  ∃ sig ∈ sigs, ∃ key, Vouches clock trusted key ∧ verifyDetached sig.1 data key = true

/-- A trusted key has not expired, and the signature with its number is its own. -/
def Signs (sigs : List Signature) (data : Bytes) (i : ℕ) (tk : TrustedKey) : Prop :=
  checkKeyExpired tk (clock i) = false ∧
    ∃ sig, sigs[i+1]? = some sig ∧ verifyDetached sig.1 data tk.key = true

/-- The first signature is one of the built-in key, or one of the others is that of
the trusted key with its number. -/
def InPlace (trusted : TrustedKeys) (sigs : List Signature) (data : Bytes) : Prop :=
  (∃ sig, sigs[0]? = some sig ∧ verifyDetached sig.1 data builtinKey = true) ∨
    ∃ (i : ℕ) (tk : TrustedKey), trusted.keys[i]? = some tk ∧
      Signs verifyDetached clock sigs data i tk

variable {verifyDetached clock}

/-! ## Signatures by position -/

def concatenated (sigs : List Signature) : Bytes := (sigs.map Subtype.val).flatten

theorem concatenated_cons (sig : Signature) (sigs : List Signature) :
    concatenated (sig::sigs) = sig.1++concatenated sigs := rfl

theorem length_concatenated (sigs : List Signature) :
    (concatenated sigs).length = 64*sigs.length := by
  induction sigs with
  | nil => rfl
  | cons sig sigs ih =>
      rw [concatenated_cons,List.length_append,sig.2,ih,List.length_cons]
      omega

theorem signatureAt_concatenated {sigs : List Signature} {i : ℕ} {sig : Signature}
    (h : sigs[i]? = some sig) : signatureAt (concatenated sigs) i = sig.1 := by
  unfold signatureAt
  induction sigs generalizing i with
  | nil => cases h
  | cons first sigs ih =>
      rw [concatenated_cons]
      cases i with
      | zero =>
          cases h
          rw [Nat.mul_zero,List.drop_zero,List.take_left' sig.2]
      | succ i =>
          have hdrop : 64*(i+1) = first.1.length+64*i := by
            rw [first.2]
            omega
          rw [hdrop,List.drop_length_add_append]
          exact ih h

/-- A position of the file holds a signature if the file reaches behind it. -/
theorem reaches_iff (sigs : List Signature) (data : Bytes) (key : PublicKey) (i : ℕ) :
    (64*(i+1) ≤ (concatenated sigs).length ∧
      verifyDetached (signatureAt (concatenated sigs) i) data key = true) ↔
      ∃ sig, sigs[i]? = some sig ∧ verifyDetached sig.1 data key = true := by
  rw [length_concatenated]
  cases h : sigs[i]? with
  | none =>
      have hle := List.getElem?_eq_none_iff.mp h
      simp only [reduceCtorEq,false_and,exists_false,iff_false,not_and]
      intro hlt
      omega
  | some sig =>
      have hlt := (List.getElem?_eq_some_iff.mp h).1
      rw [signatureAt_concatenated h]
      simp only [Option.some_inj,exists_eq_left',and_iff_right_iff_imp]
      intro _
      omega

theorem verifyTrusted_cons_iff (sigs : List Signature) (data : Bytes) (n : ℕ) (tk : TrustedKey)
    (tks : List TrustedKey) :
    verifyTrusted verifyDetached clock (concatenated sigs) data n (tk::tks) = true ↔
      Signs verifyDetached clock sigs data n tk ∨
        verifyTrusted verifyDetached clock (concatenated sigs) data (n+1) tks = true := by
  unfold Signs
  rw [verifyTrusted,← reaches_iff]
  cases checkKeyExpired tk (clock n) <;> simp

theorem verifyTrusted_iff (sigs : List Signature) (data : Bytes) (n : ℕ) (tks : List TrustedKey) :
    verifyTrusted verifyDetached clock (concatenated sigs) data n tks = true ↔
      ∃ (i : ℕ) (tk : TrustedKey), tks[i]? = some tk ∧
        Signs verifyDetached clock sigs data (n+i) tk := by
  induction tks generalizing n with
  | nil => simp [verifyTrusted]
  | cons tk tks ih =>
      have hshift : ∀ i, n+1+i = n+(i+1) := fun i => by omega
      rw [verifyTrusted_cons_iff,ih]
      refine Iff.trans ?_ (Nat.or_exists_add_one (p := fun i => ∃ t, (tk::tks)[i]? = some t ∧
        Signs verifyDetached clock sigs data (n+i) t))
      simp [hshift]

/-- A file that is not too long is accepted if a signature is in its place. -/
theorem verifyPluginSignature_iff (trusted : TrustedKeys) (sigs : List Signature) (data : Bytes) :
    verifyPluginSignature verifyDetached clock trusted (some (concatenated sigs)) (some data) =
      true ↔ sigs.length ≤ maxTrustedKeys ∧ InPlace verifyDetached clock trusted sigs data := by
  have hfirst := @reaches_iff verifyDetached sigs data builtinKey 0
  have hothers := @verifyTrusted_iff verifyDetached clock sigs data 0 trusted.keys
  simp only [Nat.zero_add,Nat.mul_one] at hfirst hothers
  have hlength := length_concatenated sigs
  unfold verifyPluginSignature InPlace
  rw [← hfirst,← hothers]
  simp only [Bool.and_eq_true,decide_eq_true_eq]
  by_cases hlen : 64*maxTrustedKeys < (concatenated sigs).length
  · rw [if_pos hlen]
    simp only [Bool.false_eq_true,false_iff,not_and]
    intro hle
    omega
  · have hle : sigs.length ≤ maxTrustedKeys := by omega
    rw [if_neg hlen]
    simp only [hle,true_and]
    split_ifs with h
    · exact iff_of_true rfl (Or.inl h)
    · exact (or_iff_right h).symm

theorem InPlace.trusted {trusted : TrustedKeys} {sigs : List Signature} {data : Bytes}
    (h : InPlace verifyDetached clock trusted sigs data) :
    Trusted verifyDetached clock trusted sigs data := by
  obtain ⟨sig,hsig,hv⟩ | ⟨i,tk,hi,hexpired,sig,hsig,hv⟩ := h
  · exact ⟨sig,List.mem_of_getElem? hsig,builtinKey,.builtin,hv⟩
  · exact ⟨sig,List.mem_of_getElem? hsig,tk.key,.trusted hi hexpired,hv⟩

/-- Acceptance says that a signature is trusted exactly if a trusted signature means
that the file is not too long and one of them is in its place. -/
theorem accepts_trusted_iff (verifyDetached : Bytes → Bytes → PublicKey → Bool) (clock : ℕ → ℤ)
    (trusted : TrustedKeys) (sigs : List Signature) (data : Bytes) :
    (verifyPluginSignature verifyDetached clock trusted (some (concatenated sigs)) (some data) =
      true ↔ Trusted verifyDetached clock trusted sigs data) ↔
    (¬Trusted verifyDetached clock trusted sigs data ∨
      (sigs.length ≤ maxTrustedKeys ∧ InPlace verifyDetached clock trusted sigs data)) := by
  rw [verifyPluginSignature_iff]
  have hsound : sigs.length ≤ maxTrustedKeys ∧ InPlace verifyDetached clock trusted sigs data →
      Trusted verifyDetached clock trusted sigs data := fun h => h.2.trusted
  constructor
  · intro h
    by_cases ht : Trusted verifyDetached clock trusted sigs data
    · exact Or.inr (h.mpr ht)
    · exact Or.inl ht
  · rintro (hn | hp)
    · exact iff_of_false (fun h => hn (hsound h)) hn
    · exact iff_of_true hp (hsound hp)

end

/-- Keys and signatures that are told apart by their first byte, for a scheme in
which a signature is that of the key with the same first byte. -/
def sampleKey (b : UInt8) : PublicKey := ⟨b::List.replicate 31 0,by simp⟩

def sampleSignature (b : UInt8) : Signature := ⟨b::List.replicate 63 0,by simp⟩

def sampleVerify (sig _data : Bytes) (key : PublicKey) : Bool := sig.head? = key.1.head?

def sampleTrusted (n : ℕ) (h : n ≤ maxTrustedKeys) : TrustedKeys :=
  ⟨(List.range n).map fun i => ⟨sampleKey (UInt8.ofNat i),bytes "unknown",0⟩,by simpa using h⟩

/-- A plugin that is signed by a trusted key alone is refused, and so is one with
the signatures of all nine keys. -/
theorem sole_signature_of_trusted_key_is_refused :
    (verifyPluginSignature sampleVerify (fun _ => 1700000000) (sampleTrusted 1 (by decide))
        (some (concatenated [sampleSignature 0])) (some (bytes "plugin")) = false ∧
      Trusted sampleVerify (fun _ => 1700000000) (sampleTrusted 1 (by decide))
        [sampleSignature 0] (bytes "plugin")) ∧
    (verifyPluginSignature sampleVerify (fun _ => 1700000000) (sampleTrusted 8 (by decide))
        (some (concatenated ([0x2b,0,1,2,3,4,5,6,7].map sampleSignature)))
        (some (bytes "plugin")) = false ∧
      Trusted sampleVerify (fun _ => 1700000000) (sampleTrusted 8 (by decide))
        ([0x2b,0,1,2,3,4,5,6,7].map sampleSignature) (bytes "plugin")) := by
  refine ⟨⟨by decide +kernel,?_⟩,by decide +kernel,?_⟩
  · have hkey : (sampleTrusted 1 (by decide)).keys[0]? =
        some ⟨sampleKey 0,bytes "unknown",0⟩ := rfl
    exact ⟨sampleSignature 0,List.mem_cons_self,sampleKey 0,.trusted hkey rfl,by decide⟩
  · exact ⟨sampleSignature 0x2b,List.mem_cons_self,builtinKey,.builtin,by decide⟩

end Filly.Verify
