import ObjectGraph.Json.Token
import ObjectGraph.Proofs.Numerals
import Mathlib.Data.List.Chain

/-!
# Reading written tokens

Scanning gives back the tokens that a text was written from (`Json.scan?_write`), if they can be told
apart in it: two numerals side by side would be read as one, so after a numeral a comma or a closing
bracket must follow, or the end.

The scanner is followed piece by piece. `Mode.Reads` says what some characters do to it whatever comes
after them, so pieces compose. A numeral is the one token that is not finished when its last character
has been read; what stands after it finishes it, provided that it cannot continue it (`EndsNumeral`).
-/

set_option autoImplicit false

namespace ObjectGraph.Json

/-- Reading these characters completes these tokens and leaves that mode, whatever follows. -/
def Mode.Reads (mode : Mode) (cs : List Char) (ts : List Token) (mode' : Mode) : Prop :=
  ∀ rest, scanFrom? mode (cs ++ rest) = (scanFrom? mode' rest).map (ts ++ ·)

namespace Mode.Reads

variable {mode mode' mode'' : Mode} {cs ds : List Char} {ts us : List Token}

theorem nil (mode : Mode) : mode.Reads [] [] mode := fun rest => by simp

theorem step {c : Char} (h : mode.step? c = some (ts, mode')) : mode.Reads [c] ts mode' := by
  intro rest
  rw [List.singleton_append, scanFrom?, h]

theorem trans (h : mode.Reads cs ts mode') (h' : mode'.Reads ds us mode'') :
    mode.Reads (cs ++ ds) (ts ++ us) mode'' := by
  intro rest
  rw [List.append_assoc, h, h', Option.map_map]
  congr 1
  funext more
  exact (List.append_assoc ts us more).symm

/-- A character that completes nothing, in front. -/
theorem cons {c : Char} (h : mode.step? c = some ([], mode')) (h' : mode'.Reads cs ts mode'') :
    mode.Reads (c :: cs) ts mode'' := (step h).trans h'

end Mode.Reads

/-! ## Strings -/

theorem ofEscapeLetter?_of_escapeLetter? {c letter : Char} (h : escapeLetter? c = some letter) :
    letter ≠ 'u' ∧ ofEscapeLetter? letter = some c := by
  unfold escapeLetter? at h
  split at h <;> first | (obtain rfl := Option.some.inj h; decide) | cases h

/-- What needs no escape may stand in a string as it is. -/
theorem ne_mark_of_escapeLetter?_eq_none {c : Char} (h : escapeLetter? c = none) :
    c ≠ '"' ∧ c ≠ '\\' := by
  refine ⟨?_, ?_⟩ <;> (rintro rfl; cases h)

theorem hexValue?_digitChar {d : Nat} (h : d < 16) : hexValue? (Nat.digitChar d) = some d := by
  revert d
  decide

theorem reads_hexDigit (read : Text) (value left : Nat) {d : Nat} (hd : d < 16) :
    (Mode.code read value (left + 2)).Reads [Nat.digitChar d] []
      (.code read (value * 16 + d) (left + 1)) := by
  apply Mode.Reads.step
  simp [Mode.step?, hexValue?_digitChar hd]

theorem reads_lastHexDigit (read : Text) (value : Nat) {d : Nat} (hd : d < 16) :
    (Mode.code read value 1).Reads [Nat.digitChar d] []
      (.string (.code (UInt16.ofNat (value * 16 + d)) :: read)) := by
  apply Mode.Reads.step
  simp [Mode.step?, hexValue?_digitChar hd]

theorem reads_hexDigits (read : Text) (u : UInt16) :
    (Mode.code read 0 4).Reads (hexDigits u) [] (.string (.code u :: read)) := by
  have hsize : u.toNat < 65536 := u.toNat_lt
  have h1 : u.toNat / 4096 < 16 := by omega
  have h2 : u.toNat / 256 % 16 < 16 := by omega
  have h3 : u.toNat / 16 % 16 < 16 := by omega
  have h4 : u.toNat % 16 < 16 := by omega
  have hvalue : (((0 * 16 + u.toNat / 4096) * 16 + u.toNat / 256 % 16) * 16 + u.toNat / 16 % 16) * 16 +
      u.toNat % 16 = u.toNat := by omega
  have hlast := reads_lastHexDigit read
    (((0 * 16 + u.toNat / 4096) * 16 + u.toNat / 256 % 16) * 16 + u.toNat / 16 % 16) h4
  rw [hvalue, UInt16.ofNat_toNat] at hlast
  exact (((reads_hexDigit read _ 2 h1).trans (reads_hexDigit read _ 1 h2)).trans
    (reads_hexDigit read _ 0 h3)).trans hlast

/-- A character of a string is read back in the form in which it was put there. -/
theorem reads_ofChar (read : Text) (c : Char) :
    (Mode.string read).Reads (TextUnit.ofChar c).write [] (.string (.ofChar c :: read)) := by
  have hescape : (Mode.string read).step? '\\' = some ([], .escape read) := rfl
  unfold TextUnit.ofChar
  split
  next =>
    have hcode : (Mode.escape read).step? 'u' = some ([], .code read 0 4) := rfl
    exact .cons hescape (.cons hcode (reads_hexDigits read _))
  next hplain =>
    cases hletter : escapeLetter? c with
    | some letter =>
      obtain ⟨hu, hback⟩ := ofEscapeLetter?_of_escapeLetter? hletter
      have hstep : (Mode.escape read).step? letter = some ([], .string (.char c :: read)) := by
        simp only [Mode.step?, if_neg hu, hback, Option.map_some]
      simpa only [TextUnit.write, hletter] using Mode.Reads.cons hescape (.step hstep)
    | none =>
      obtain ⟨hquote, hbackslash⟩ := ne_mark_of_escapeLetter?_eq_none hletter
      have hcontrol : isControl c = false := by simpa [hletter] using hplain
      have hstep : (Mode.string read).step? c = some ([], .string (.char c :: read)) := by
        simp only [Mode.step?, if_neg hquote, if_neg hbackslash, hcontrol, Bool.false_eq_true,
          if_false]
      simpa only [TextUnit.write, hletter] using Mode.Reads.step hstep

theorem reads_ofChars (read : Text) (cs : List Char) :
    (Mode.string read).Reads ((cs.map TextUnit.ofChar).flatMap TextUnit.write) []
      (.string ((cs.map TextUnit.ofChar).reverse ++ read)) := by
  induction cs generalizing read with
  | nil => exact .nil _
  | cons c cs ih =>
    simpa only [List.map_cons, List.flatMap_cons, List.reverse_cons, List.append_assoc,
      List.singleton_append, List.nil_append] using (reads_ofChar read c).trans (ih (.ofChar c :: read))

theorem reads_string (s : String) :
    Mode.between.Reads (Token.string (.ofString s)).write [.string (.ofString s)] .between := by
  have hopen : Mode.between.step? '"' = some ([], .string []) := rfl
  have hunits := reads_ofChars [] s.toList
  have hclose : (Mode.string ((Text.ofString s).reverse ++ [])).Reads ['"'] [.string (.ofString s)]
      .between := .step (by simp [Mode.step?])
  exact .cons hopen (hunits.trans hclose)

/-! ## Numerals -/

/-- Collecting digits one by one collects them all, last first. -/
theorem reads_digits (draft : List Digit → Draft)
    (hnext : ∀ d ds, (draft ds).next? d.char = some (draft (d :: ds))) (ds es : List Digit) :
    (Mode.numeral (draft ds)).Reads (es.map Digit.char) [] (.numeral (draft (es.reverse ++ ds))) := by
  induction es generalizing ds with
  | nil => exact .nil _
  | cons e es ih =>
    have hstep : (Mode.numeral (draft ds)).step? e.char = some ([], .numeral (draft (e :: ds))) := by
      simp only [Mode.step?, hnext]
    simpa only [List.map_cons, List.reverse_cons, List.append_assoc, List.singleton_append] using
      Mode.Reads.cons hstep (ih (e :: ds))

/-- So do digits of which the first one begins the collection. -/
theorem reads_firstDigits {mode : Mode} (draft : List Digit → Draft)
    (hnext : ∀ d ds, (draft ds).next? d.char = some (draft (d :: ds))) {d : Digit} (ds : List Digit)
    (hfirst : mode.step? d.char = some ([], .numeral (draft [d]))) :
    mode.Reads ((d :: ds).map Digit.char) [] (.numeral (draft (d :: ds).reverse)) := by
  rw [List.reverse_cons]
  exact .cons hfirst (reads_digits draft hnext [d] ds)

/-- No sign, point or mark has been read that a digit would have to follow. -/
def Draft.Ended (draft : Draft) : Prop :=
  draft.phase = .zero ∨ draft.phase = .whole ∨ draft.phase = .fraction ∨ draft.phase = .power

/-- A character that no numeral goes on with after a digit. -/
def EndsNumeral (c : Char) : Prop := Digit.ofChar? c = none ∧ c ≠ '.' ∧ c ≠ 'e' ∧ c ≠ 'E'

theorem Draft.next?_eq_none {draft : Draft} {c : Char} (hdraft : draft.Ended) (hc : EndsNumeral c) :
    draft.next? c = none := by
  obtain ⟨hdigit, hpoint, hlower, hupper⟩ := hc
  rcases hdraft with h | h | h | h <;> simp [next?, h, hdigit, hpoint, hlower, hupper]

/-- The first digit of a numeral without a sign. -/
theorem step?_between_digit (d : Digit) :
    Mode.between.step? d.char =
      some ([], .numeral ⟨if d = .zero then .zero else .whole, false, [d], [], false, []⟩) := by
  revert d
  decide

/-- The first digit of a numeral after its sign. -/
theorem step?_sign_digit (d : Digit) :
    (Mode.numeral ⟨.sign, true, [], [], false, []⟩).step? d.char =
      some ([], .numeral ⟨if d = .zero then .zero else .whole, true, [d], [], false, []⟩) := by
  revert d
  decide

theorem reads_firstDigit (negative : Bool) (d : Digit) :
    Mode.between.Reads ((if negative then ['-'] else []) ++ [d.char]) []
      (.numeral ⟨if d = .zero then .zero else .whole, negative, [d], [], false, []⟩) := by
  cases negative with
  | false => exact .step (step?_between_digit d)
  | true =>
    have hsign : Mode.between.step? '-' = some ([], .numeral ⟨.sign, true, [], [], false, []⟩) := rfl
    exact .cons hsign (.step (step?_sign_digit d))

/-- The digits before the point. A zero in front is the only one, so no digit is met after it. -/
theorem reads_whole (negative : Bool) {ds : List Digit} (h : Numeral.ProperWhole ds) :
    ∃ phase, (phase = .zero ∨ phase = .whole) ∧
      Mode.between.Reads ((if negative then ['-'] else []) ++ ds.map Digit.char) []
        (.numeral ⟨phase, negative, ds.reverse, [], false, []⟩) := by
  obtain ⟨d, es, rfl, hzero⟩ := h
  have hfirst := reads_firstDigit negative d
  by_cases hd : d = .zero
  · rw [if_pos hd] at hfirst
    rw [hzero hd]
    exact ⟨.zero, .inl rfl, hfirst⟩
  · rw [if_neg hd] at hfirst
    have hmore := reads_digits (fun ds => ⟨.whole, negative, ds, [], false, []⟩)
      (fun d ds => by simp [Draft.next?]) [d] es
    refine ⟨.whole, .inr rfl, ?_⟩
    simpa only [List.map_cons, List.reverse_cons, List.append_assoc, List.singleton_append,
      List.nil_append] using hfirst.trans hmore

/-- The point and the digits after it, if there are any. -/
theorem reads_fraction {phase : Phase} (hphase : phase = .zero ∨ phase = .whole) (negative : Bool)
    (whole fraction : List Digit) :
    ∃ last, (last = .zero ∨ last = .whole ∨ last = .fraction) ∧
      (Mode.numeral ⟨phase, negative, whole, [], false, []⟩).Reads
        (if fraction.isEmpty then [] else '.' :: fraction.map Digit.char) []
        (.numeral ⟨last, negative, whole, fraction.reverse, false, []⟩) := by
  cases fraction with
  | nil => exact ⟨phase, hphase.imp_right .inl, .nil _⟩
  | cons d ds =>
    have hpoint : (Mode.numeral ⟨phase, negative, whole, [], false, []⟩).step? '.' =
        some ([], .numeral ⟨.point, negative, whole, [], false, []⟩) := by
      rcases hphase with rfl | rfl <;> rfl
    have hfirst : (Mode.numeral ⟨.point, negative, whole, [], false, []⟩).step? d.char =
        some ([], .numeral ⟨.fraction, negative, whole, [d], false, []⟩) := by
      simp [Mode.step?, Draft.next?]
    have hdigits := reads_firstDigits (fun ds => ⟨.fraction, negative, whole, ds, false, []⟩)
      (fun d ds => by simp [Draft.next?]) ds hfirst
    exact ⟨.fraction, .inr (.inr rfl), .cons hpoint hdigits⟩

/-- The power of ten. -/
theorem reads_exponent {phase : Phase}
    (hphase : phase = .zero ∨ phase = .whole ∨ phase = .fraction) (negative : Bool)
    (whole fraction : List Digit) {e : Exponent} (he : e.digits ≠ []) :
    (Mode.numeral ⟨phase, negative, whole, fraction, false, []⟩).Reads e.text []
      (.numeral ⟨.power, negative, whole, fraction, e.negative, e.digits.reverse⟩) := by
  obtain ⟨powerNegative, digits⟩ := e
  obtain ⟨d, ds, rfl⟩ := List.exists_cons_of_ne_nil he
  have hmark : (Mode.numeral ⟨phase, negative, whole, fraction, false, []⟩).step? 'e' =
      some ([], .numeral ⟨.mark, negative, whole, fraction, false, []⟩) := by
    rcases hphase with rfl | rfl | rfl <;> rfl
  refine .cons hmark ?_
  cases powerNegative with
  | false =>
    have hfirst : (Mode.numeral ⟨.mark, negative, whole, fraction, false, []⟩).step? d.char =
        some ([], .numeral ⟨.power, negative, whole, fraction, false, [d]⟩) := by
      simp [Mode.step?, Draft.next?]
    exact reads_firstDigits (fun ds => ⟨.power, negative, whole, fraction, false, ds⟩)
      (fun d ds => by simp [Draft.next?]) ds hfirst
  | true =>
    have hsign : (Mode.numeral ⟨.mark, negative, whole, fraction, false, []⟩).step? '-' =
        some ([], .numeral ⟨.powerSign, negative, whole, fraction, true, []⟩) := rfl
    have hfirst : (Mode.numeral ⟨.powerSign, negative, whole, fraction, true, []⟩).step? d.char =
        some ([], .numeral ⟨.power, negative, whole, fraction, true, [d]⟩) := by
      simp [Mode.step?, Draft.next?]
    exact .cons hsign (reads_firstDigits (fun ds => ⟨.power, negative, whole, fraction, true, ds⟩)
      (fun d ds => by simp [Draft.next?]) ds hfirst)

/-- A well-formed numeral is held, once its characters have been read, as a draft that may end. -/
theorem reads_numeral {n : Numeral} (h : n.Proper) :
    ∃ draft : Draft, draft.Ended ∧ draft.finish? = some n ∧
      Mode.between.Reads n.text [] (.numeral draft) := by
  obtain ⟨negative, whole, fraction, exponent⟩ := n
  obtain ⟨first, hfirst, hwhole⟩ := reads_whole negative h.whole
  obtain ⟨last, hlast, hfraction⟩ := reads_fraction hfirst negative whole.reverse fraction
  have hread := hwhole.trans hfraction
  cases exponent with
  | none =>
    refine ⟨⟨last, negative, whole.reverse, fraction.reverse, false, []⟩, ?_, ?_, ?_⟩
    · rcases hlast with h | h | h <;> simp [Draft.Ended, h]
    · rcases hlast with rfl | rfl | rfl <;> simp [Draft.finish?]
    · simpa [Numeral.text] using hread
  | some e =>
    refine ⟨⟨.power, negative, whole.reverse, fraction.reverse, e.negative, e.digits.reverse⟩, ?_, ?_, ?_⟩
    · simp [Draft.Ended]
    · simp [Draft.finish?]
    · have hpower := reads_exponent hlast negative whole.reverse fraction.reverse (h.power e rfl)
      simpa [Numeral.text] using hread.trans hpower

/-- What ends a numeral finishes it and is then read as if it stood alone. -/
theorem scanFrom?_numeral {draft : Draft} {n : Numeral} (hended : draft.Ended)
    (hfinish : draft.finish? = some n) {rest : List Char} (hrest : ∀ c ∈ rest.head?, EndsNumeral c) :
    scanFrom? (.numeral draft) rest = (scanFrom? .between rest).map (.number n :: ·) := by
  cases rest with
  | nil => simp [scanFrom?, Mode.finish?, hfinish]
  | cons c rest =>
    have hnone := Draft.next?_eq_none hended (hrest c rfl)
    simp only [scanFrom?, Mode.step?, hnone, hfinish]
    cases Mode.start? c with
    | none => rfl
    | some after => simp [Function.comp_def]

/-! ## Tokens -/

/-- A token as it is written: its numeral is well formed, its string the form of some string. -/
def Token.Plain : Token → Prop
  | .number n => n.Proper
  | .string t => ∃ s, t = Text.ofString s
  | _ => True

/-- These two tokens can be told apart when one is written after the other. -/
def Separated : Token → Token → Prop
  | .number _, next => next = .comma ∨ next = .closeArray ∨ next = .closeObject
  | _, _ => True

/-- A token that is not a numeral is finished with its last character. -/
theorem reads_token {t : Token} (h : t.Plain) (hnumber : ∀ n, t ≠ .number n) :
    Mode.between.Reads t.write [t] .between := by
  cases t with
  | number n => exact absurd rfl (hnumber n)
  | string t =>
    obtain ⟨s, rfl⟩ := h
    exact reads_string s
  | null => exact .cons rfl (.cons rfl (.cons rfl (.step rfl)))
  | boolean b =>
    cases b with
    | false => exact .cons rfl (.cons rfl (.cons rfl (.cons rfl (.step rfl))))
    | true => exact .cons rfl (.cons rfl (.cons rfl (.step rfl)))
  | _ => exact .step rfl

/-- What is written after a numeral ends it. -/
theorem endsNumeral_of_separated {n : Numeral} {next : Token} (h : Separated (.number n) next)
    (rest : List Char) : ∀ c ∈ (next.write ++ rest).head?, EndsNumeral c := by
  rintro c hc
  rcases h with rfl | rfl | rfl <;> obtain rfl := Option.some.inj hc <;>
    exact ⟨rfl, by decide, by decide, by decide⟩

/-- Tokens that can be read back when they are written one after the other. -/
structure Legible (ts : List Token) : Prop where
  plain : ∀ t ∈ ts, t.Plain
  separated : ts.IsChain Separated

namespace Legible

theorem nil : Legible [] := ⟨fun _ ht => absurd ht List.not_mem_nil, .nil⟩

theorem singleton {t : Token} (h : t.Plain) : Legible [t] :=
  ⟨fun _ hu => List.mem_singleton.mp hu ▸ h, .singleton t⟩

theorem tail {t : Token} {ts : List Token} (h : Legible (t :: ts)) : Legible ts :=
  ⟨fun u hu => h.plain u (List.mem_cons_of_mem t hu), h.separated.tail⟩

/-- What stands before a comma or a closing bracket needs no care. -/
theorem append {ts us : List Token} (h : Legible ts) (h' : Legible us)
    (hnext : ∀ u ∈ us.head?, u = .comma ∨ u = .closeArray ∨ u = .closeObject) : Legible (ts ++ us) := by
  refine ⟨fun t ht => (List.mem_append.mp ht).elim (h.plain t) (h'.plain t), ?_⟩
  refine h.separated.append h'.separated fun t _ u hu => ?_
  cases t with
  | number n => exact hnext u hu
  | _ => trivial

/-- What stands after a token other than a numeral needs no care. -/
theorem cons {t : Token} {ts : List Token} (ht : t.Plain) (hnumber : ∀ n, t ≠ .number n)
    (h : Legible ts) : Legible (t :: ts) := by
  refine ⟨List.forall_mem_cons.mpr ⟨ht, h.plain⟩, h.separated.cons fun u _ => ?_⟩
  cases t with
  | number n => exact absurd rfl (hnumber n)
  | _ => trivial

end Legible

/-- **Scanning gives back the tokens that were written.** -/
theorem scan?_write {ts : List Token} (h : Legible ts) : scan? (ts.flatMap Token.write) = some ts := by
  induction ts with
  | nil => rfl
  | cons t ts ih =>
    have ih := ih h.tail
    have hplain := h.plain t List.mem_cons_self
    rw [scan?] at ih ⊢
    rw [List.flatMap_cons]
    by_cases hnumber : ∃ n, t = .number n
    · obtain ⟨n, rfl⟩ := hnumber
      obtain ⟨draft, hended, hfinish, hread⟩ := reads_numeral hplain
      have hrest : ∀ c ∈ (ts.flatMap Token.write).head?, EndsNumeral c := by
        cases ts with
        | nil =>
          intro c hc
          cases hc
        | cons next more => exact endsNumeral_of_separated (h.separated.rel_head? rfl) _
      rw [Token.write, hread, scanFrom?_numeral hended hfinish hrest, ih]
      rfl
    · rw [reads_token hplain (not_exists.mp hnumber), ih]
      rfl

end ObjectGraph.Json
