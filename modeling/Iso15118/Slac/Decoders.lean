import Iso15118.Slac.RoundTrip

/-!
# What the SLAC decoders look at

A decoder is given the payload of a frame, which the medium has padded, and has to find its record
at the front of it: a payload shorter than the record is none, and what lies behind the record says
nothing. Twelve of the thirteen decoders read their record to the end, reserved bytes and all. The
one of `CM_SLAC_MATCH.REQ` leaves out the eight reserved bytes its record ends in, and so takes a
payload without them.

* **`Kind`** — the types of message, each with its declared length and its decoder;
* **`Kind.exact`** — how many bytes each decoder looks at;
* **`Kind.keepsToRecord_iff`** — which payloads each of them gets right.
-/

namespace Iso15118.Slac

open Iso15118.Lib

/-! ## The types of message

The thirteen types under one name, with what each declares and what its decoder reads. -/

/-- A type of message. -/
inductive Kind where
  | setKeyReq
  | setKeyCnf
  | slacParmReq
  | slacParmCnf
  | startAttenCharInd
  | attenCharInd
  | attenCharRsp
  | mnbcSoundInd
  | validateReq
  | validateCnf
  | slacMatchReq
  | slacMatchCnf
  | attenProfileInd
  deriving DecidableEq, Repr

namespace Kind

/-- `LEN`. -/
def len : Kind → Nat
  | .setKeyReq => 38
  | .setKeyCnf => 14
  | .slacParmReq => 10
  | .slacParmCnf => 25
  | .startAttenCharInd => 19
  | .attenCharInd => 110
  | .attenCharRsp => 51
  | .mnbcSoundInd => 52
  | .validateReq => 3
  | .validateCnf => 3
  | .slacMatchReq => 66
  | .slacMatchCnf => 90
  | .attenProfileInd => 66

/-- The type's own `decode`. -/
def decode : Kind → List UInt8 → Except SlacError Record
  | .setKeyReq, payload => (SetKeyReq.decode payload).map .setKeyReq
  | .setKeyCnf, payload => (SetKeyCnf.decode payload).map .setKeyCnf
  | .slacParmReq, payload => (SlacParmReq.decode payload).map .slacParmReq
  | .slacParmCnf, payload => (SlacParmCnf.decode payload).map .slacParmCnf
  | .startAttenCharInd, payload => (StartAttenCharInd.decode payload).map .startAttenCharInd
  | .attenCharInd, payload => (AttenCharInd.decode payload).map .attenCharInd
  | .attenCharRsp, payload => (AttenCharRsp.decode payload).map .attenCharRsp
  | .mnbcSoundInd, payload => (MnbcSoundInd.decode payload).map .mnbcSoundInd
  | .validateReq, payload => (ValidateReq.decode payload).map .validateReq
  | .validateCnf, payload => (ValidateCnf.decode payload).map .validateCnf
  | .slacMatchReq, payload => (SlacMatchReq.decode payload).map .slacMatchReq
  | .slacMatchCnf, payload => (SlacMatchCnf.decode payload).map .slacMatchCnf
  | .attenProfileInd, payload => (AttenProfileInd.decode payload).map .attenProfileInd

/-- How many bytes the decoder reads. -/
def reads : Kind → Nat
  | .slacMatchReq => 58
  | k => k.len

end Kind

/-! ## What each decoder reads

A decoder is a reader of fixed width for the first so many bytes. That is read off its text,
field by field. -/

/-- A decoder that looks at the first `n` bytes, all of them and no others. -/
structure LooksAt {α : Type} (decode : List UInt8 → Except SlacError α) (n : Nat) : Prop where
  le : ∀ {payload m}, decode payload = .ok m → n ≤ payload.length
  take : ∀ payload {len}, n ≤ len → decode (payload.take len) = decode payload

namespace LooksAt

variable {α β : Type} {decode : List UInt8 → Except SlacError α} {n : Nat}

theorem of_exact {r : Read α} (h : Reader.Exact r n) : LooksAt (Reader.decode r) n :=
  ⟨fun hd => h.le_of_decode hd, fun _ _ hle => h.decode_take hle⟩

theorem map (h : LooksAt decode n) (f : α → β) : LooksAt (fun p => (decode p).map f) n where
  le {payload m} hd := by
    cases hp : decode payload with
    | error e =>
      rw [hp] at hd
      cases hd
    | ok m => exact h.le hp
  take payload {len} hle := by rw [h.take payload hle]

end LooksAt

theorem Read.exact_profile : Reader.Exact Read.profile 2 :=
  .bind .u8 fun _ => .bind .u8 fun _ => .ite (.throw _) (.pure ())

theorem Read.exact_mvfLength (expected : UInt16) : Reader.Exact (Read.mvfLength expected) 2 :=
  .bind .u16le fun _ => .ite (.throw _) (.pure ())

theorem Read.exact_validate (numGroups : UInt8) :
    Reader.Exact (liftM (AttenProfile.validate numGroups) : Read Unit) 0 := .lift _

theorem SetKeyReq.looksAt : LooksAt SetKeyReq.decode 38 :=
  .of_exact <| .bind .u8 fun _ => .bind .u32le fun _ => .bind .u32le fun _ => .bind .u8 fun _ =>
    .bind .u16le fun _ => .bind .u8 fun _ => .bind .u8 fun _ => .bind (.array 7) fun _ =>
    .bind .u8 fun _ => .bind (.array 16) fun _ => .pure _

theorem SetKeyCnf.looksAt : LooksAt SetKeyCnf.decode 14 :=
  .of_exact <| .bind .u8 fun _ => .bind .u32le fun _ => .bind .u32le fun _ => .bind .u8 fun _ =>
    .bind .u16le fun _ => .bind .u8 fun _ => .bind .u8 fun _ => .pure _

theorem SlacParmReq.looksAt : LooksAt SlacParmReq.decode 10 :=
  .of_exact <| .bind Read.exact_profile fun _ => .bind (.array 8) fun _ => .pure _

theorem SlacParmCnf.looksAt : LooksAt SlacParmCnf.decode 25 :=
  .of_exact <| .bind (.array 6) fun _ => .bind .u8 fun _ => .bind .u8 fun _ => .bind .u8 fun _ =>
    .bind (.array 6) fun _ => .bind Read.exact_profile fun _ => .bind (.array 8) fun _ => .pure _

theorem StartAttenCharInd.looksAt : LooksAt StartAttenCharInd.decode 19 :=
  .of_exact <| .bind Read.exact_profile fun _ => .bind .u8 fun _ => .bind .u8 fun _ =>
    .bind .u8 fun _ => .bind (.array 6) fun _ => .bind (.array 8) fun _ => .pure _

theorem AttenCharInd.looksAt : LooksAt AttenCharInd.decode 110 :=
  .of_exact <| .bind Read.exact_profile fun _ => .bind (.array 6) fun _ => .bind (.array 8) fun _ =>
    .bind (.array 17) fun _ => .bind (.array 17) fun _ => .bind .u8 fun _ => .bind .u8 fun _ =>
    .bind (Read.exact_validate _) fun _ => .bind (.array 58) fun _ => .pure _

theorem AttenCharRsp.looksAt : LooksAt AttenCharRsp.decode 51 :=
  .of_exact <| .bind Read.exact_profile fun _ => .bind (.array 6) fun _ => .bind (.array 8) fun _ =>
    .bind (.array 17) fun _ => .bind (.array 17) fun _ => .bind .u8 fun _ => .pure _

theorem MnbcSoundInd.looksAt : LooksAt MnbcSoundInd.decode 52 :=
  .of_exact <| .bind Read.exact_profile fun _ => .bind (.array 17) fun _ => .bind .u8 fun _ =>
    .bind (.array 8) fun _ => .bind (.skip 8) fun _ => .bind (.array 16) fun _ => .pure _

theorem ValidateReq.looksAt : LooksAt ValidateReq.decode 3 :=
  .of_exact <| .bind .u8 fun _ => .bind .u8 fun _ => .bind .u8 fun _ => .pure _

theorem ValidateCnf.looksAt : LooksAt ValidateCnf.decode 3 :=
  .of_exact <| .bind .u8 fun _ => .bind .u8 fun _ => .bind .u8 fun _ => .pure _

/-- Eight bytes fewer than it declares. -/
theorem SlacMatchReq.looksAt : LooksAt SlacMatchReq.decode 58 :=
  .of_exact <| .bind Read.exact_profile fun _ => .bind (Read.exact_mvfLength _) fun _ =>
    .bind (.array 17) fun _ => .bind (.array 6) fun _ => .bind (.array 17) fun _ =>
    .bind (.array 6) fun _ => .bind (.array 8) fun _ => .pure _

theorem SlacMatchCnf.looksAt : LooksAt SlacMatchCnf.decode 90 :=
  .of_exact <| .bind Read.exact_profile fun _ => .bind (Read.exact_mvfLength _) fun _ =>
    .bind (.array 17) fun _ => .bind (.array 6) fun _ => .bind (.array 17) fun _ =>
    .bind (.array 6) fun _ => .bind (.array 8) fun _ => .bind (.skip 8) fun _ =>
    .bind (.array 7) fun _ => .bind (.skip 1) fun _ => .bind (.array 16) fun _ => .pure _

theorem AttenProfileInd.looksAt : LooksAt AttenProfileInd.decode 66 :=
  .of_exact <| .bind (.array 6) fun _ => .bind .u8 fun _ => .bind (.skip 1) fun _ =>
    .bind (Read.exact_validate _) fun _ => .bind (.array 58) fun _ => .pure _

namespace Kind

/-- **What each decoder looks at.** -/
theorem looksAt (k : Kind) : LooksAt k.decode k.reads := by
  cases k with
  | setKeyReq => exact SetKeyReq.looksAt.map _
  | setKeyCnf => exact SetKeyCnf.looksAt.map _
  | slacParmReq => exact SlacParmReq.looksAt.map _
  | slacParmCnf => exact SlacParmCnf.looksAt.map _
  | startAttenCharInd => exact StartAttenCharInd.looksAt.map _
  | attenCharInd => exact AttenCharInd.looksAt.map _
  | attenCharRsp => exact AttenCharRsp.looksAt.map _
  | mnbcSoundInd => exact MnbcSoundInd.looksAt.map _
  | validateReq => exact ValidateReq.looksAt.map _
  | validateCnf => exact ValidateCnf.looksAt.map _
  | slacMatchReq => exact SlacMatchReq.looksAt.map _
  | slacMatchCnf => exact SlacMatchCnf.looksAt.map _
  | attenProfileInd => exact AttenProfileInd.looksAt.map _

theorem reads_le_len (k : Kind) : k.reads ≤ k.len := by
  cases k <;> decide

theorem reads_eq_len {k : Kind} (h : k ≠ .slacMatchReq) : k.reads = k.len := by
  cases k with
  | slacMatchReq => exact absurd rfl h
  | _ => rfl

end Kind

/-! ## The request for the key

The one decoder that stops before the end of its record. -/

theorem Read.profile_run_cons (b₀ b₁ : UInt8) (rest : List UInt8) :
    Read.profile.run (b₀ :: b₁ :: rest)
      = if b₀ ≠ 0 ∨ b₁ ≠ 0 then .error (.unsupportedProfile b₀ b₁) else .ok ((), rest) := by
  unfold Read.profile Read.u8
  rw [Reader.run_bind_ok (Reader.u8_run_cons _ _), Reader.run_bind_ok (Reader.u8_run_cons _ _)]
  show (if b₀ ≠ 0 ∨ b₁ ≠ 0 then _ else _ : Read Unit).run rest = _
  split
  · rfl
  · rfl

theorem Read.mvfLength_run_cons (expected : UInt16) (b₀ b₁ : UInt8) (rest : List UInt8) :
    (Read.mvfLength expected).run (b₀ :: b₁ :: rest)
      = if u16FromLe b₀ b₁ ≠ expected
        then .error (.badLength (u16FromLe b₀ b₁).toNat expected.toNat) else .ok ((), rest) := by
  have hread : Read.u16le.run (b₀ :: b₁ :: rest) = .ok (u16FromLe b₀ b₁, rest) :=
    Reader.run_bind_ok (Reader.array_run_append ⟨[b₀, b₁], rfl⟩ rest)
  unfold Read.mvfLength
  rw [Reader.run_bind_ok hread]
  split
  · rfl
  · rfl

theorem Read.array_run_of_le (n : Nat) (bytes : List UInt8) (h : n ≤ bytes.length) :
    ∃ v, (Read.array n).run bytes = .ok (v, bytes.drop n) := Reader.array_run_of_le h

theorem u16FromLe_eq_matchReq {b₀ b₁ : UInt8} :
    u16FromLe b₀ b₁ = matchReqMvfLength ↔ b₀ = 0x3E ∧ b₁ = 0 := by
  rw [← UInt16.toNat_inj, ← UInt8.toNat_inj, ← UInt8.toNat_inj]
  have h₀ := b₀.toNat_lt
  have h₁ := b₁.toNat_lt
  show (UInt16.ofNat (b₀.toNat + 256 * b₁.toNat)).toNat = 62 ↔ b₀.toNat = 62 ∧ b₁.toNat = 0
  rw [UInt16.toNat_ofNat']
  omega

/-- Of a payload with the bytes the decoder looks at, the first four decide. -/
theorem SlacMatchReq.exists_decode_iff {payload : List UInt8} (h : 58 ≤ payload.length) :
    (∃ m, SlacMatchReq.decode payload = .ok m) ↔ payload.take 4 = [0x00, 0x00, 0x3E, 0x00] := by
  obtain ⟨b₀, b₁, b₂, b₃, rest, rfl⟩ :
      ∃ b₀ b₁ b₂ b₃ rest, payload = b₀ :: b₁ :: b₂ :: b₃ :: rest := by
    match payload, h with
    | b₀ :: b₁ :: b₂ :: b₃ :: rest, _ => exact ⟨b₀, b₁, b₂, b₃, rest, rfl⟩
  have hlen : 54 ≤ rest.length := by
    simp only [List.length_cons] at h
    omega
  rw [show (b₀ :: b₁ :: b₂ :: b₃ :: rest).take 4 = [b₀, b₁, b₂, b₃] from rfl]
  have hprofile := Read.profile_run_cons b₀ b₁ (b₂ :: b₃ :: rest)
  have hmvf := Read.mvfLength_run_cons matchReqMvfLength b₂ b₃ rest
  unfold SlacMatchReq.decode Reader.decode
  by_cases hzero : b₀ ≠ 0 ∨ b₁ ≠ 0
  · -- another profile
    rw [if_pos hzero] at hprofile
    rw [Reader.run_bind_error hprofile]
    refine iff_of_false (fun ⟨m, hm⟩ => by cases hm) fun heq => ?_
    cases heq
    simp at hzero
  · rw [if_neg hzero] at hprofile
    rw [Reader.run_bind_ok hprofile]
    by_cases hlength : u16FromLe b₂ b₃ = matchReqMvfLength
    · rw [if_neg (not_not.mpr hlength)] at hmvf
      rw [Reader.run_bind_ok hmvf]
      -- nothing is checked any more, and the bytes are there
      obtain ⟨pevId, hpevId⟩ := Read.array_run_of_le 17 rest (by omega)
      obtain ⟨pevMac, hpevMac⟩ := Read.array_run_of_le 6 (rest.drop 17)
        (by rw [List.length_drop]; omega)
      obtain ⟨evseId, hevseId⟩ := Read.array_run_of_le 17 ((rest.drop 17).drop 6)
        (by simp only [List.length_drop]; omega)
      obtain ⟨evseMac, hevseMac⟩ := Read.array_run_of_le 6 (((rest.drop 17).drop 6).drop 17)
        (by simp only [List.length_drop]; omega)
      obtain ⟨runId, hrunId⟩ := Read.array_run_of_le 8 ((((rest.drop 17).drop 6).drop 17).drop 6)
        (by simp only [List.length_drop]; omega)
      rw [Reader.run_bind_ok hpevId, Reader.run_bind_ok hpevMac, Reader.run_bind_ok hevseId,
        Reader.run_bind_ok hevseMac, Reader.run_bind_ok hrunId]
      obtain ⟨rfl, rfl⟩ := u16FromLe_eq_matchReq.mp hlength
      obtain ⟨h₀, h₁⟩ := not_or.mp hzero
      rw [not_not.mp h₀, not_not.mp h₁]
      exact iff_of_true ⟨_, rfl⟩ rfl
    -- another length is refused
    · rw [if_pos hlength] at hmvf
      rw [Reader.run_bind_error hmvf]
      refine iff_of_false (fun ⟨m, hm⟩ => by cases hm) fun heq => ?_
      cases heq
      exact hlength (u16FromLe_eq_matchReq.mpr ⟨rfl, rfl⟩)

/-! ## Keeping to the record

With the widths known, a decoder keeps to its record exactly if it reads as many bytes as it
declares. -/

/-- The decoder takes no payload shorter than the record, and makes of this one what it makes of
any other with the record in front. -/
def Kind.KeepsToRecord (k : Kind) (payload : List UInt8) : Prop :=
  (∀ r, k.decode payload = .ok r → k.len ≤ payload.length)
    ∧ ∀ other : List UInt8, other.take k.len = payload.take k.len →
      k.decode other = k.decode payload

/-- The payload is a `CM_SLAC_MATCH.REQ` that lacks some of its reserved bytes. -/
structure Kind.Docked (k : Kind) (payload : List UInt8) : Prop where
  kind : k = .slacMatchReq
  fields : 58 ≤ payload.length
  reserved : payload.length < 66
  opens : payload.take 4 = [0x00, 0x00, 0x3E, 0x00]

/-- **The decoders keep to the record, but for one.** Each of them takes only payloads that hold
the whole record and looks at nothing behind it, except that `CM_SLAC_MATCH.REQ` is decoded without
its reserved bytes. -/
theorem Kind.keepsToRecord_iff (k : Kind) (payload : List UInt8) :
    k.KeepsToRecord payload ↔ ¬ k.Docked payload := by
  have hlocal : ∀ other : List UInt8, other.take k.len = payload.take k.len →
      k.decode other = k.decode payload := by
    intro other hother
    rw [← k.looksAt.take other k.reads_le_len, hother, k.looksAt.take payload k.reads_le_len]
  constructor
  · rintro ⟨hlong, -⟩ hdocked
    obtain rfl := hdocked.kind
    obtain ⟨m, hm⟩ := (SlacMatchReq.exists_decode_iff hdocked.fields).mpr hdocked.opens
    have hle := hlong (.slacMatchReq m) (by rw [Kind.decode, hm]; rfl)
    exact absurd hdocked.reserved (Nat.not_lt.mpr hle)
  · intro hwhole
    refine ⟨fun r hr => ?_, hlocal⟩
    have hreads := k.looksAt.le hr
    by_cases hkind : k = .slacMatchReq
    · subst hkind
      by_contra hshort
      refine hwhole ⟨rfl, hreads, Nat.lt_of_not_ge hshort, ?_⟩
      rw [← SlacMatchReq.exists_decode_iff hreads]
      cases hm : SlacMatchReq.decode payload with
      | error e =>
        rw [Kind.decode, hm] at hr
        cases hr
      | ok m => exact ⟨m, rfl⟩
    · rw [Kind.reads_eq_len hkind] at hreads
      exact hreads

/-- Fifty-eight bytes are taken for a request of sixty-six. -/
theorem Kind.not_keepsToRecord_docked :
    ¬ Kind.slacMatchReq.KeepsToRecord ([0x00, 0x00, 0x3E, 0x00] ++ List.replicate 54 0x01) := by
  intro h
  have hle := h.1 (.slacMatchReq ⟨Bytes.replicate 17 0x01, Bytes.replicate 6 0x01,
    Bytes.replicate 17 0x01, Bytes.replicate 6 0x01, Bytes.replicate 8 0x01⟩) (by decide +kernel)
  exact absurd hle (by decide)

end Iso15118.Slac
