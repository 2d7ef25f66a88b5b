import Iso15118.Lib.Check
import Iso15118.Protocol.Slots
import Mathlib.Data.List.DropRight

/-!
# Protocols by name

The text of a protocol and of a set of them, as configurations and records store it: a name for
each, in preference order, with commas between. What is written is read back, whatever the
surrounding space and the case of the names; and no token is passed over in silence, so a text is
read exactly when every token of it that is not blank is: **`names_round_trip`**.
-/

namespace Iso15118

open Iso15118.Lib

/-! ## Text

What the standard library does to text, as far as names need it: trimming space off both ends,
and comparing letters without their case. The names and the error come from the source. -/

/-- `char::is_whitespace`: the `White_Space` property. -/
def isWhitespace (c : Char) : Bool :=
  let n := c.toNat
  (9 ≤ n && n ≤ 13) || n = 0x20 || n = 0x85 || n = 0xa0 || n = 0x1680
    || (0x2000 ≤ n && n ≤ 0x200a) || n = 0x2028 || n = 0x2029 || n = 0x202f || n = 0x205f
    || n = 0x3000

/-- `str::trim`. -/
def trim (text : List Char) : List Char := (text.dropWhile isWhitespace).rdropWhile isWhitespace

/-- `str::eq_ignore_ascii_case`. -/
def eqIgnoreAsciiCase (a b : List Char) : Bool := a.map Char.toLower = b.map Char.toLower

/-- What a name could not be read as. -/
structure ParseProtocolError where
  generationOmitted : Bool
  deriving DecidableEq, Repr

/-- `ParseProtocolError::for_input`. -/
def ParseProtocolError.forInput (input : List Char) : ParseProtocolError where
  generationOmitted := eqIgnoreAsciiCase input "iso15118".toList
    || eqIgnoreAsciiCase input "iso 15118".toList || eqIgnoreAsciiCase input "iso-15118".toList

namespace Protocol

/-- `Protocol::as_str`. -/
def asStr : Protocol → String
  | .din70121 => "din70121"
  | .iso2 => "iso15118-2"
  | .iso20 => "iso15118-20"

/-- `Protocol::from_str`: the names in any case, the namespaces, and one that is no longer sent. -/
def fromStr (text : List Char) : Except ParseProtocolError Protocol :=
  let s := trim text
  let byName := all.find? fun p => eqIgnoreAsciiCase p.asStr.toList s
  let byNamespace := fromNamespace (String.ofList s)
  let stored :=
    if s = "urn:iso:std:iso:15118:-20:CommonMessages".toList then some Protocol.iso20 else none
  ((byName.or byNamespace).or stored).elim (.error (.forInput s)) .ok

end Protocol

namespace Protocols.Slots

/-- `Protocols::fmt`. -/
def display (s : Slots) : List Char := [','].intercalate (s.iter.map (·.asStr.toList))

/-- `Protocols::from_str`. -/
def fromStr (text : List Char) : Except ParseProtocolError Slots :=
  (text.splitOn ',').foldlM (fun set token =>
    if (trim token).isEmpty then .ok set
    else do
      let protocol ← Protocol.fromStr token
      return (set.insert protocol).2) new

end Protocols.Slots

/-! ## One name

A name has no space at its ends or anywhere else and keeps its letters under a change of case, so
what is around it and how it is written is lost on the reader. -/

/-- Space around a text that has none is trimmed away. -/
theorem trim_pad {left text right : List Char} (hleft : ∀ c ∈ left, isWhitespace c = true)
    (htext : ∀ c ∈ text, isWhitespace c = false) (hright : ∀ c ∈ right, isWhitespace c = true) :
    trim (left ++ text ++ right) = text := by
  have htail : (text ++ right).rdropWhile isWhitespace = text := by
    induction right using List.reverseRecOn with
    | nil =>
      rw [List.append_nil, List.rdropWhile_eq_self_iff]
      intro hne
      simp [htext _ (List.getLast_mem hne)]
    | append_singleton right c ih =>
      rw [← List.append_assoc, List.rdropWhile_concat_pos _ _ _ (hright c (by simp))]
      exact ih fun d hd => hright d (List.mem_append_left [c] hd)
  rw [trim, List.append_assoc, List.dropWhile_append_of_pos hleft]
  cases text with
  | nil =>
    rw [List.nil_append, List.dropWhile_eq_nil_iff.mpr hright]
    rfl
  | cons c text =>
    rw [List.cons_append, List.dropWhile_cons_of_neg (by simp [htext c (List.mem_cons_self ..)])]
    exact htail

/-- Space has no case. -/
theorem toLower_of_isWhitespace {c : Char} (h : isWhitespace c = true) : c.toLower = c := by
  refine dif_neg ?_
  rintro ⟨hlow, hhigh⟩
  have hlow : 65 ≤ c.toNat := UInt32.le_iff_toNat_le.mp hlow
  have hhigh : c.toNat ≤ 90 := UInt32.le_iff_toNat_le.mp hhigh
  simp only [isWhitespace, Bool.or_eq_true, Bool.and_eq_true, decide_eq_true_eq] at h
  omega

namespace Protocol

theorem asStr_plain (p : Protocol) :
    ∀ c ∈ p.asStr.toList, isWhitespace c = false ∧ c.toLower = c ∧ c ≠ ',' := by
  have hall : (p.asStr.toList.all fun c =>
      decide (isWhitespace c = false ∧ c.toLower = c ∧ c ≠ ',')) = true := by
    cases p <;> decide
  intro c hc
  exact of_decide_eq_true (List.all_eq_true.mp hall c hc)

/-- Whatever the case, there is no space in a name. -/
theorem plain_of_eqIgnoreAsciiCase {p : Protocol} {text : List Char}
    (h : eqIgnoreAsciiCase p.asStr.toList text = true) : ∀ c ∈ text, isWhitespace c = false := by
  intro c hc
  by_contra hspace
  rw [Bool.not_eq_false] at hspace
  have hmem : c.toLower ∈ text.map Char.toLower := List.mem_map_of_mem hc
  rw [← of_decide_eq_true h, toLower_of_isWhitespace hspace, List.mem_map] at hmem
  obtain ⟨d, hd, rfl⟩ := hmem
  obtain ⟨hplain, hlower, -⟩ := p.asStr_plain d hd
  rw [hlower, hplain] at hspace
  cases hspace

/-- No two names differ in case alone. -/
theorem asStr_injective {p q : Protocol}
    (h : p.asStr.toList.map Char.toLower = q.asStr.toList.map Char.toLower) : p = q := by
  cases p <;> cases q <;> first | rfl | exact absurd h (by decide)

/-- A name is read back, whatever its case and the space around it. -/
theorem fromStr_of_name {p : Protocol} {left text right : List Char}
    (hleft : ∀ c ∈ left, isWhitespace c = true) (hright : ∀ c ∈ right, isWhitespace c = true)
    (h : eqIgnoreAsciiCase p.asStr.toList text = true) :
    fromStr (left ++ text ++ right) = .ok p := by
  have hfind : (fun q : Protocol => eqIgnoreAsciiCase q.asStr.toList text)
      = fun q => decide (q = p) := by
    funext q
    rw [eqIgnoreAsciiCase, ← of_decide_eq_true h, decide_eq_decide]
    constructor
    · exact asStr_injective
    · rintro rfl
      rfl
  have hall : all.find? (fun q => decide (q = p)) = some p := by
    cases p <;> rfl
  unfold fromStr
  rw [trim_pad hleft (plain_of_eqIgnoreAsciiCase h) hright]
  dsimp only
  rw [hfind, hall]
  rfl

theorem fromStr_asStr (p : Protocol) : fromStr p.asStr.toList = .ok p := by
  have hname : eqIgnoreAsciiCase p.asStr.toList p.asStr.toList = true := decide_eq_true rfl
  have hnone : ∀ c ∈ ([] : List Char), isWhitespace c = true := by simp
  have h := fromStr_of_name hnone hnone hname
  rwa [List.append_nil, List.nil_append] at h

end Protocol

/-! ## A set of them

The loop over the tokens either reads all that are not blank or stops at the first it cannot
read. By induction on the tokens, for any set to begin with. -/

namespace Protocols

/-- A token that is passed over. -/
def Blank (token : List Char) : Bool := (trim token).isEmpty

/-- The tokens of a text that name something. -/
def named (text : List Char) : List (List Char) := (text.splitOn ',').filter fun t => !Blank t

/-- One turn of the loop over the tokens. -/
def takeToken (set : Slots) (token : List Char) : Except ParseProtocolError Slots :=
  if Blank token then .ok set
  else do
    let protocol ← Protocol.fromStr token
    return (set.insert protocol).2

theorem fromStr_eq_foldlM (text : List Char) :
    Slots.fromStr text = (text.splitOn ',').foldlM takeToken .new := rfl

/-- A run of the loop that succeeds has read every token that is not blank. -/
theorem foldlM_ok_iff {tokens : List (List Char)} {set s : Slots} :
    tokens.foldlM takeToken set = .ok s ↔
      ∃ ps, List.Forall₂ (fun token p => Protocol.fromStr token = .ok p)
          (tokens.filter fun t => !Blank t) ps
        ∧ s = ps.foldl (fun set p => (set.insert p).2) set := by
  induction tokens generalizing set with
  | nil =>
    constructor
    · intro h
      cases h
      exact ⟨[], .nil, rfl⟩
    · rintro ⟨ps, hps, rfl⟩
      cases hps
      rfl
  | cons token tokens ih =>
    rw [List.foldlM_cons, List.filter_cons]
    cases hblank : Blank token with
    | true =>
      -- a blank token is skipped
      rw [takeToken, if_pos hblank]
      exact ih
    | false =>
      rw [takeToken, if_neg (by simp [hblank])]
      -- any other has to name a protocol
      cases hread : Protocol.fromStr token with
      | error e =>
        refine iff_of_false (fun h => by cases h) ?_
        rintro ⟨ps, hps, -⟩
        cases hps with
        | cons hp _ =>
          rw [hread] at hp
          cases hp
      | ok p =>
        show tokens.foldlM takeToken (set.insert p).2 = .ok s ↔ _
        rw [ih]
        constructor
        · rintro ⟨ps, hps, rfl⟩
          exact ⟨p :: ps, .cons hread hps, rfl⟩
        · rintro ⟨ps, hps, rfl⟩
          cases hps with
          | cons hp hps =>
            rw [hread] at hp
            cases hp
            exact ⟨_, hps, rfl⟩

/-- One that fails has read every token before the one it fails at. -/
theorem foldlM_error_iff {tokens : List (List Char)} {set : Slots} {e : ParseProtocolError} :
    tokens.foldlM takeToken set = .error e ↔
      ∃ before token after, (tokens.filter fun t => !Blank t) = before ++ token :: after
        ∧ (∀ t ∈ before, ∃ p, Protocol.fromStr t = .ok p)
        ∧ Protocol.fromStr token = .error e := by
  induction tokens generalizing set with
  | nil =>
    refine iff_of_false (fun h => by cases h) ?_
    rintro ⟨before, token, after, h, -⟩
    cases before <;> cases h
  | cons first tokens ih =>
    rw [List.foldlM_cons, List.filter_cons]
    cases hblank : Blank first with
    | true =>
      rw [takeToken, if_pos hblank]
      exact ih
    | false =>
      rw [takeToken, if_neg (by simp [hblank])]
      cases hread : Protocol.fromStr first with
      -- the token in front does not read, and it is the first
      | error e' =>
        constructor
        · intro h
          cases h
          exact ⟨[], first, _, rfl, by simp, hread⟩
        · rintro ⟨before, token, after, h, hbefore, htoken⟩
          cases before with
          | nil =>
            cases h
            rw [hread] at htoken
            cases htoken
            rfl
          | cons t before =>
            obtain ⟨rfl, -⟩ := List.cons.inj h
            obtain ⟨p, hp⟩ := hbefore first (List.mem_cons_self ..)
            rw [hread] at hp
            cases hp
      -- it reads, so the one that does not is among the others
      | ok p =>
        show tokens.foldlM takeToken (set.insert p).2 = .error e ↔ _
        rw [ih]
        constructor
        · rintro ⟨before, token, after, h, hbefore, htoken⟩
          refine ⟨first :: before, token, after, congrArg (first :: ·) h, ?_, htoken⟩
          intro t ht
          rcases List.mem_cons.mp ht with rfl | ht
          · exact ⟨p, hread⟩
          · exact hbefore t ht
        · rintro ⟨before, token, after, h, hbefore, htoken⟩
          cases before with
          | nil =>
            cases h
            rw [hread] at htoken
            cases htoken
          | cons t before =>
            exact ⟨before, token, after, (List.cons.inj h).2,
              fun t ht => hbefore t (List.mem_cons_of_mem _ ht), htoken⟩

theorem not_blank_asStr (p : Protocol) : Blank p.asStr.toList = false := by
  cases p <;> decide

/-- What is written has a token for each protocol, or one that is blank. -/
theorem named_display {slots : Slots} {s : Protocols} (h : Packs slots s) :
    named slots.display = s.entries.map (·.asStr.toList) := by
  unfold named Slots.display
  rw [h.iter_eq]
  cases hentries : s.entries with
  | nil => rfl
  | cons p ps =>
    rw [List.splitOn_intercalate]
    · rw [List.filter_eq_self]
      intro t ht
      obtain ⟨q, -, rfl⟩ := List.mem_map.mp ht
      rw [not_blank_asStr]
      rfl
    · intro t ht hcomma
      obtain ⟨q, -, rfl⟩ := List.mem_map.mp ht
      exact (q.asStr_plain ',' hcomma).2.2 rfl
    · simp

theorem forall₂_asStr (ps : List Protocol) :
    List.Forall₂ (fun token p => Protocol.fromStr token = .ok p)
      (ps.map (·.asStr.toList)) ps := by
  induction ps with
  | nil => exact .nil
  | cons p ps ih => exact .cons p.fromStr_asStr ih

/-- What is written is read back. -/
theorem fromStr_display {slots : Slots} {s : Protocols} (h : Packs slots s) :
    Slots.fromStr slots.display = .ok slots := by
  rw [fromStr_eq_foldlM, foldlM_ok_iff]
  refine ⟨s.entries, ?_, ?_⟩
  · have hnamed := named_display h
    rw [named] at hnamed
    rw [hnamed]
    exact forall₂_asStr s.entries
  · have hlist : ofList s.entries = s := by
      cases s with
      | mk entries nodup =>
        unfold ofList
        simp only [insertAll_of_nodup nodup]
    have hpacks := packs_fromSlice s.entries
    rw [hlist, ← collect_eq_fromSlice] at hpacks
    exact (h.eq_iff hpacks).mpr rfl

/-- **Names round trip.** A name is read back in any case and with any space around it; a set is,
whatever list it was made from and whatever was done to it. A text is read as a set exactly when
each of its tokens that is not blank is read, as the first occurrences of what they name; and the
error is that of the first token that is not. -/
theorem names_round_trip :
    (∀ (p : Protocol) (left text right : List Char), (∀ c ∈ left, isWhitespace c = true) →
        (∀ c ∈ right, isWhitespace c = true) →
        eqIgnoreAsciiCase p.asStr.toList text = true →
        Protocol.fromStr (left ++ text ++ right) = .ok p)
      ∧ (∀ start ops, Slots.fromStr (run Slots.call (.fromSlice start) ops).display
          = .ok (run Slots.call (.fromSlice start) ops))
      ∧ (∀ text s, Slots.fromStr text = .ok s ↔
          ∃ ps, List.Forall₂ (fun token p => Protocol.fromStr token = .ok p) (named text) ps
            ∧ s = .fromSlice ps)
      ∧ ∀ text e, Slots.fromStr text = .error e ↔
          ∃ before token after, named text = before ++ token :: after
            ∧ (∀ t ∈ before, ∃ p, Protocol.fromStr t = .ok p)
            ∧ Protocol.fromStr token = .error e := by
  refine ⟨?_, ?_, ?_, ?_⟩
  · intro p left text right hleft hright h
    exact Protocol.fromStr_of_name hleft hright h
  · intro start ops
    exact fromStr_display ((packs_fromSlice start).run ops)
  · intro text s
    rw [fromStr_eq_foldlM, foldlM_ok_iff]
    simp only [← collect_eq_fromSlice]
    exact Iff.rfl
  · intro text e
    exact foldlM_error_iff

/-- ` ISO15118-20 ` is a name, and `iso15118` between two names is the error of the whole text. -/
theorem names_round_trip_padded :
    Protocol.fromStr " ISO15118-20 ".toList = .ok .iso20
      ∧ Slots.fromStr "iso15118-20, iso15118,din70121".toList = .error ⟨true⟩ := by
  refine ⟨?_, ?_⟩
  · have hspace : ∀ c ∈ [' '], isWhitespace c = true := List.all_eq_true.mp (by decide)
    exact names_round_trip.1 .iso20 [' '] "ISO15118-20".toList [' '] hspace hspace (by decide)
  · refine (names_round_trip.2.2.2 _ _).mpr ⟨["iso15118-20".toList], " iso15118".toList,
      ["din70121".toList], by decide, ?_, by decide⟩
    intro t ht
    rw [List.mem_singleton.mp ht]
    exact ⟨.iso20, by decide⟩

end Protocols

end Iso15118
