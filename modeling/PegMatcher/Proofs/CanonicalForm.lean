import PegMatcher.Proofs.Building
import PegMatcher.Proofs.Elements
/-
The canonical form is unambiguous.

Two values without floats and payloads that are written the same are the same tree in the same
representations.  A quote in a string is written behind a backslash while a backslash stands for
itself, so that a quote behind a backslash may end the string or go on with it, and what was
read so far does not tell.  What follows does.  Of two readings that take such a quote in
different ways one is inside a string and the other one is outside of strings, and so they
remain: outside of strings no backslash precedes a quote, so the next quote opens a string for
the one and closes the string for the other.  At the end of the text none is inside a string.
Characters between single quotes are no exception, since a double quote there is followed by a
single one, and a string is not.
-/
namespace PegMatcher

/-! ## Strings between quotes -/

namespace Text

theorem escapeQuotes_cons {c : Char} (h : c ≠ '"') (s : List Char) :
    escapeQuotes (c :: s) = c :: escapeQuotes s := by
  rw [escapeQuotes]
  exact h

/-- How what is left of a string begins: the string ends, or it goes on with a quote or with
any other character. -/
theorem escapeQuotes_cases {s t r : List Char} {c : Char}
    (h : c :: r = escapeQuotes s ++ '"' :: t) :
    (s = [] ∧ c = '"' ∧ r = t) ∨
      (∃ s', s = '"' :: s' ∧ c = '\\' ∧ r = '"' :: (escapeQuotes s' ++ '"' :: t)) ∨
        ∃ s', s = c :: s' ∧ c ≠ '"' ∧ r = escapeQuotes s' ++ '"' :: t := by
  cases s with
  | nil =>
    obtain ⟨hc, hr⟩ := List.cons.inj h
    exact .inl ⟨rfl, hc, hr⟩
  | cons d s =>
    by_cases hd : d = '"'
    · subst hd
      obtain ⟨hc, hr⟩ := List.cons.inj h
      exact .inr (.inl ⟨s, rfl, hc, hr⟩)
    · rw [escapeQuotes_cons hd] at h
      obtain ⟨rfl, hr⟩ := List.cons.inj h
      exact .inr (.inr ⟨s, rfl, hd, hr⟩)

/-! ## Inside and outside of strings -/

/-- What may follow a value: the end, a blank or a closing parenthesis. -/
def Boundary : List Char → Prop
  | [] => True
  | c :: _ => c = ' ' ∨ c = ')'

/-- A text that can be read from outside of strings to its end. -/
inductive Outside : List Char → Prop
  | nil : Outside []
  | plain {c t} (hquote : c ≠ '"') (hchar : c ≠ '\'') (hback : c ≠ '\\') (ht : Outside t) :
      Outside (c :: t)
  | char {c t} (ht : Outside t) : Outside ('\'' :: c :: '\'' :: t)
  | str {s t} (hbound : Boundary t) (ht : Outside t) :
      Outside ('"' :: (escapeQuotes s ++ '"' :: t))

/-- What may follow a value, up to the end of the text. -/
structure Behind (t : List Char) : Prop where
  bound : Boundary t
  outside : Outside t

/-- A text that can be read from inside a string to its end. -/
def Inside (t : List Char) : Prop := ∃ s r, t = escapeQuotes s ++ '"' :: r ∧ Behind r

namespace Inside

variable {c : Char} {t : List Char}

/-- A quote that is not behind a backslash closes the string. -/
theorem close (h : Inside ('"' :: t)) : Behind t := by
  obtain ⟨s, r, heq, hr⟩ := h
  rcases escapeQuotes_cases heq with ⟨-, -, rfl⟩ | ⟨_, -, hc, -⟩ | ⟨_, -, hc, -⟩
  · exact hr
  · exact absurd hc (by decide)
  · exact absurd rfl hc

/-- Any other character is part of the string, a backslash too if no quote is behind it. -/
theorem tail (h : Inside (c :: t)) (hquote : c ≠ '"') (hback : c = '\\' → ∀ r, t ≠ '"' :: r) :
    Inside t := by
  obtain ⟨s, r, heq, hr⟩ := h
  rcases escapeQuotes_cases heq with ⟨-, hc, -⟩ | ⟨_, -, hc, ht⟩ | ⟨s', -, -, ht⟩
  · exact absurd hc hquote
  · exact absurd ht (hback hc _)
  · exact ⟨s', r, ht, hr⟩

end Inside

/-- No text can be read both from inside a string and from outside of strings. -/
theorem Outside.not_inside {t : List Char} (h : Outside t) : ¬Inside t := by
  induction hn : t.length using Nat.strongRecOn generalizing t with
  | _ n ih =>
    subst hn
    intro hin
    cases h with
    | nil =>
      obtain ⟨s, r, heq, -⟩ := hin
      exact List.append_ne_nil_of_right_ne_nil _ (List.cons_ne_nil _ _) heq.symm
    | plain hquote _ hback ht =>
      exact ih _ (Nat.lt_succ_self _) ht rfl (hin.tail hquote fun heq => absurd heq hback)
    | @char c t ht =>
      have hafter : Inside (c :: '\'' :: t) := hin.tail (by decide) fun heq => by cases heq
      -- the character between the single quotes may be anything
      by_cases hc : c = '"'
      · subst hc
        rcases hafter.close.bound with heq | heq <;> exact absurd heq (by decide)
      · have hlast : Inside ('\'' :: t) := hafter.tail hc fun _ r heq => by cases heq
        have hin' : Inside t := hlast.tail (by decide) fun heq => by cases heq
        exact ih t.length (by simp only [List.length_cons]; omega) ht rfl hin'
    | @str s t hbound ht =>
      exact ih _ (Nat.lt_succ_self _) hin.close.outside rfl ⟨s, t, rfl, hbound, ht⟩

/-- Two readings that take a quote behind a backslash in different ways. -/
theorem Inside.not_quote {t : List Char} (h : Inside t) : ¬Inside ('"' :: t) :=
  fun hquote => hquote.close.outside.not_inside h

/-- A string is told from what follows its closing quote. -/
theorem escapeQuotes_inj {s s' t t' : List Char} (ht : Behind t) (ht' : Behind t')
    (h : escapeQuotes s ++ '"' :: t = escapeQuotes s' ++ '"' :: t') : s = s' ∧ t = t' := by
  induction s generalizing s' with
  | nil =>
    rcases escapeQuotes_cases (c := '"') (r := t) h with ⟨rfl, -, rfl⟩ | ⟨_, -, hc, -⟩ |
      ⟨_, -, hc, -⟩
    · exact ⟨rfl, rfl⟩
    · exact absurd hc (by decide)
    · exact absurd rfl hc
  | cons c s ih =>
    by_cases hquote : c = '"'
    · subst hquote
      rcases escapeQuotes_cases (c := '\\') h with ⟨-, hc, -⟩ | ⟨s₁, rfl, -, heq⟩ | ⟨s₁, -, -, heq⟩
      · exact absurd hc (by decide)
      · obtain ⟨rfl, rfl⟩ := ih (List.cons.inj heq).2
        exact ⟨rfl, rfl⟩
      · exact absurd ⟨s₁, t', heq, ht'⟩ (Inside.not_quote ⟨s, t, rfl, ht⟩)
    · rw [escapeQuotes_cons hquote] at h
      rcases escapeQuotes_cases (c := c) h with ⟨-, hc, -⟩ | ⟨s₁, -, -, heq⟩ | ⟨s₁, rfl, -, heq⟩
      · exact absurd hc hquote
      · exact absurd ⟨s, t, heq.symm, ht⟩ (Inside.not_quote ⟨s₁, t', rfl, ht'⟩)
      · obtain ⟨rfl, rfl⟩ := ih heq
        exact ⟨rfl, rfl⟩

/-- Characters that are not quotes or backslashes leave a reader outside of strings. -/
theorem Outside.append {l t : List Char}
    (h : ∀ c ∈ l, c ≠ '"' ∧ c ≠ '\'' ∧ c ≠ '\\') (ht : Outside t) : Outside (l ++ t) := by
  induction l with
  | nil => exact ht
  | cons c l ih =>
    obtain ⟨hc, hl⟩ := List.forall_mem_cons.1 h
    exact .plain hc.1 hc.2.1 hc.2.2 (ih hl)

end Text

/-! ## Integers -/

namespace Decimal

theorem ofNat_inj {m n : Nat} (h : ofNat m = ofNat n) : m = n := by
  have hdigits : Nat.toDigits 10 m = Nat.toDigits 10 n := String.ofList_injective h
  rw [← Nat.ofDigitChars_toDigits (n := m) (by decide) (Nat.le_refl 10), hdigits,
    Nat.ofDigitChars_toDigits (by decide) (Nat.le_refl 10)]

theorem mem_ofNat {n : Nat} {c : Char} (h : c ∈ (ofNat n).toList) : c.isDigit = true := by
  rw [ofNat, String.toList_ofList] at h
  exact Nat.isDigit_of_mem_toDigits (by decide) (Nat.le_refl 10) h

theorem mem_ofInt {n : Int} {c : Char} (h : c ∈ (ofInt n).toList) :
    c = '-' ∨ c.isDigit = true := by
  cases n with
  | ofNat n => exact .inr (mem_ofNat h)
  | negSucc n =>
    rw [ofInt, String.toList_append] at h
    rcases List.mem_append.1 h with h | h
    · exact .inl (List.mem_singleton.1 h)
    · exact .inr (mem_ofNat h)

theorem ofInt_inj {m n : Int} (h : ofInt m = ofInt n) : m = n := by
  have hsign (m n : Nat) : ofNat m ≠ "-" ++ ofNat n := by
    intro heq
    have hmem : '-' ∈ (ofNat m).toList := by
      rw [heq, String.toList_append]
      exact List.mem_append_left _ (List.mem_singleton.2 rfl)
    exact absurd (mem_ofNat hmem) (by decide)
  cases m with
  | ofNat m =>
    cases n with
    | ofNat n => exact congrArg Int.ofNat (ofNat_inj h)
    | negSucc n => exact absurd h (hsign m (n + 1))
  | negSucc m =>
    cases n with
    | ofNat n => exact absurd h.symm (hsign n (m + 1))
    | negSucc n =>
      have hmn : ofNat (m + 1) = ofNat (n + 1) := (String.append_right_inj "-").1 h
      exact congrArg Int.negSucc (Nat.succ.inj (ofNat_inj hmn))

theorem closing_not_mem_ofInt (n : Int) : ')' ∉ (ofInt n).toList := by
  intro h
  rcases mem_ofInt h with hsign | hdigit
  · exact absurd hsign (by decide)
  · exact absurd hdigit (by decide)

/-- An integer is told from what follows the closing parenthesis behind it. -/
theorem ofInt_closed_inj {m n : Int} {t u : List Char}
    (h : (ofInt m).toList ++ ')' :: t = (ofInt n).toList ++ ')' :: u) : m = n ∧ t = u := by
  rcases List.append_eq_append_iff.1 h with ⟨l, hn, hl⟩ | ⟨l, hm, hl⟩
  · cases l with
    | nil =>
      rw [List.append_nil] at hn
      exact ⟨ofInt_inj (String.toList_inj.1 hn).symm, (List.cons.inj hl).2⟩
    | cons c l =>
      obtain rfl := (List.cons.inj hl).1
      have hmem : ')' ∈ (ofInt n).toList := hn ▸ List.mem_append_right _ List.mem_cons_self
      exact absurd hmem (closing_not_mem_ofInt n)
  · cases l with
    | nil =>
      rw [List.append_nil] at hm
      exact ⟨ofInt_inj (String.toList_inj.1 hm), (List.cons.inj hl).2.symm⟩
    | cons c l =>
      obtain rfl := (List.cons.inj hl).1
      have hmem : ')' ∈ (ofInt m).toList := hm ▸ List.mem_append_right _ List.mem_cons_self
      exact absurd hmem (closing_not_mem_ofInt m)

end Decimal

/-! ## Written values -/

namespace Value

variable {π : Type} [Payload π]

theorem toList_display_null :
    (Value.null : Value π).display.toList = ['#', 'N', 'U', 'L', 'L'] := by
  simp [display, Printer.print, printOnto, printScalar]

theorem toList_display_char (c : Char) :
    (Value.char c : Value π).display.toList = ['\'', c, '\''] := by
  simp [display, Printer.print, printOnto, printScalar]

theorem toList_display_str (s : String) : (Value.str s : Value π).display.toList =
    '"' :: (Text.escapeQuotes s.toList ++ ['"']) := by
  simp [display, Printer.print, printOnto, printScalar, Text.quoted, Text.escape]

theorem toList_display_int (n : Int64) : (Value.int n : Value π).display.toList =
    ['#', 'i', '6', '4', '('] ++ ((Decimal.ofInt n.toInt).toList ++ [')']) := by
  simp [display, Printer.print, printOnto, printScalar]

/-- How a vector opens in the canonical form. -/
def opening : Kind → List Char
  | .array => ['#', '(']
  | .cons => ['(']

/-- What follows the first of the values of a vector. -/
def more (items : List (Value π)) (last : Option (Value π)) : List Char :=
  (Printer.more (items.map display) (last.map display)).toList

def inside (items : List (Value π)) (last : Option (Value π)) : List Char :=
  (Printer.inside (items.map display) (last.map display)).toList

theorem more_nil : more ([] : List (Value π)) none = [')'] := by
  simp [more, Printer.more, String.join]

theorem more_last (a : Value π) :
    more [] (some a) = ' ' :: '.' :: ' ' :: (a.display.toList ++ [')']) := by
  simp [more, Printer.more_last]

theorem more_cons (a : Value π) (items : List (Value π)) (last : Option (Value π)) :
    more (a :: items) last = ' ' :: (a.display.toList ++ more items last) := by
  simp [more, Printer.more_cons]

theorem inside_nil (last : Option (Value π)) : inside [] last = [')'] := by
  simp [inside, Printer.inside]

theorem inside_cons (a : Value π) (items : List (Value π)) (last : Option (Value π)) :
    inside (a :: items) last = a.display.toList ++ more items last := by
  simp [inside, more, Printer.inside]

theorem toList_display_vector (v : ValueVector π) : (Value.vector v).display.toList =
    opening v.kind ++ inside v.toList v.improperTail := by
  rw [display, Printer.print_vector, String.toList_append]
  cases v.kind <;> rfl

/-- No value begins with a closing parenthesis or a dot. -/
theorem Plain.begins_ne {v : Value π} (h : v.Plain) {c : Char} (hc : c = ')' ∨ c = '.')
    (t r : List Char) : v.display.toList ++ t ≠ c :: r := by
  obtain ⟨d, s, hv, hd⟩ : ∃ d s, v.display.toList = d :: s ∧ d ≠ ')' ∧ d ≠ '.' := by
    cases h with
    | null => exact ⟨_, _, toList_display_null, by decide, by decide⟩
    | char => exact ⟨_, _, toList_display_char _, by decide, by decide⟩
    | str => exact ⟨_, _, toList_display_str _, by decide, by decide⟩
    | int => exact ⟨_, _, toList_display_int _, by decide, by decide⟩
    | array | nil | cons => exact ⟨_, _, toList_display_vector _, by decide, by decide⟩
  intro heq
  rw [hv] at heq
  obtain rfl := (List.cons.inj heq).1
  rcases hc with rfl | rfl
  · exact hd.1 rfl
  · exact hd.2 rfl

/-! ## Reading values back -/

open Text (Behind Outside)

/-- A value is read from outside of strings, whatever it holds. -/
def ReadOutside (v : Value π) : Prop := ∀ t, Behind t → Outside (v.display.toList ++ t)

/-- A value is told from what is behind it. -/
def ReadBack (v : Value π) : Prop :=
  ∀ w : Value π, w.Plain → ∀ t u, Behind t → Behind u →
    v.display.toList ++ t = w.display.toList ++ u → v = w ∧ t = u

theorem behind_closing {t : List Char} (ht : Behind t) : Behind (')' :: t) :=
  ⟨.inr rfl, .plain (by decide) (by decide) (by decide) ht.outside⟩

theorem behind_more {items : List (Value π)} {last : Option (Value π)} {t : List Char}
    (hitems : ∀ a ∈ items, a.ReadOutside) (hlast : ∀ a, last = some a → a.ReadOutside)
    (ht : Behind t) : Behind (more items last ++ t) := by
  have hclosing := behind_closing ht
  induction items with
  | nil =>
    cases last with
    | none =>
      rw [more_nil]
      exact hclosing
    | some a =>
      have hlast := hlast a rfl _ hclosing
      rw [more_last]
      simp only [List.cons_append, List.append_assoc]
      refine ⟨.inl rfl, ?_⟩
      exact .append (l := [' ', '.', ' ']) (by simp) hlast
  | cons a items ih =>
    rw [more_cons]
    obtain ⟨ha, hitems⟩ := List.forall_mem_cons.1 hitems
    have hvalue := ha _ (ih hitems)
    simp only [List.cons_append, List.append_assoc]
    exact ⟨.inl rfl, .plain (by decide) (by decide) (by decide) hvalue⟩

theorem Plain.readOutside {v : Value π} (h : v.Plain) : v.ReadOutside := by
  refine h.induct ?_ ?_ ?_ ?_ ?_
  · intro t ht
    rw [toList_display_null]
    exact .append (by simp) ht.outside
  · intro c t ht
    rw [toList_display_char]
    exact .char ht.outside
  · intro s t ht
    rw [toList_display_str, List.cons_append, List.append_assoc]
    exact .str ht.bound ht.outside
  · intro n t ht
    rw [toList_display_int, List.append_assoc, List.append_assoc]
    refine .append (by simp) (.append (fun c hc => ?_) (behind_closing ht).outside)
    rcases Decimal.mem_ofInt hc with rfl | hdigit
    · decide
    · refine ⟨?_, ?_, ?_⟩ <;> intro heq <;> rw [heq] at hdigit <;> cases hdigit
  · intro v hv t ht
    rw [toList_display_vector, List.append_assoc]
    have hopening : ∀ c ∈ opening v.kind, c ≠ '"' ∧ c ≠ '\'' ∧ c ≠ '\\' := by
      cases v.kind <;> simp [opening]
    refine .append hopening ?_
    have helements := fun a ha => (hv.elements a ha).2
    have hlast := fun a ha => (hv.last a ha).2
    generalize v.toList = items at helements
    cases items with
    | nil =>
      rw [inside_nil]
      exact (behind_closing ht).outside
    | cons a items =>
      obtain ⟨ha, hitems⟩ := List.forall_mem_cons.1 helements
      rw [inside_cons, List.append_assoc]
      exact ha _ (behind_more hitems hlast ht)

/-- What follows a value of a vector is closed, or has a value behind a dot, or another value. -/
theorem more_cases {items : List (Value π)} {last : Option (Value π)} {c : Char} {r t : List Char}
    (hitems : ∀ a ∈ items, a.Plain) (h : c :: r = more items last ++ t) :
    (items = [] ∧ last = none ∧ c = ')' ∧ r = t) ∨
      (∃ a, items = [] ∧ last = some a ∧ c = ' ' ∧
        r = '.' :: ' ' :: (a.display.toList ++ ')' :: t)) ∨
        ∃ a rest, items = a :: rest ∧ c = ' ' ∧ r = a.display.toList ++ (more rest last ++ t) ∧
          ∀ r', r ≠ '.' :: r' := by
  cases items with
  | nil =>
    cases last with
    | none =>
      rw [more_nil] at h
      obtain ⟨hc, hr⟩ := List.cons.inj h
      exact .inl ⟨rfl, rfl, hc, hr⟩
    | some a =>
      rw [more_last] at h
      obtain ⟨hc, hr⟩ := List.cons.inj h
      refine .inr (.inl ⟨a, rfl, rfl, hc, ?_⟩)
      simpa using hr
  | cons a rest =>
    rw [more_cons, List.cons_append, List.append_assoc] at h
    obtain ⟨hc, rfl⟩ := List.cons.inj h
    have ha := (hitems a List.mem_cons_self).begins_ne (.inr rfl)
    exact .inr (.inr ⟨a, rest, rfl, hc, rfl, ha _⟩)

/-- The values of a vector are told from what is behind the vector. -/
theorem more_readBack {vs ws : List (Value π)} {last last' : Option (Value π)} {t u : List Char}
    (hvs : ∀ a ∈ vs, a.Plain ∧ a.ReadBack) (hlast : ∀ a, last = some a → a.Plain ∧ a.ReadBack)
    (hws : ∀ b ∈ ws, b.Plain) (hlast' : ∀ b, last' = some b → b.Plain)
    (ht : Behind t) (hu : Behind u) (h : more vs last ++ t = more ws last' ++ u) :
    vs = ws ∧ last = last' ∧ t = u := by
  induction vs generalizing ws with
  | nil =>
    cases last with
    | none =>
      rw [more_nil] at h
      rcases more_cases (c := ')') (r := t) hws h with ⟨rfl, rfl, -, rfl⟩ | ⟨_, -, -, hc, -⟩ |
        ⟨_, _, -, hc, -⟩
      · exact ⟨rfl, rfl, rfl⟩
      · exact absurd hc (by decide)
      · exact absurd hc (by decide)
    | some a =>
      rw [more_last] at h
      rcases more_cases (c := ' ') hws h with ⟨-, -, hc, -⟩ | ⟨b, rfl, rfl, -, hr⟩ |
        ⟨_, _, -, -, -, hdot⟩
      · exact absurd hc (by decide)
      · have hr : a.display.toList ++ ')' :: t = b.display.toList ++ ')' :: u := by simpa using hr
        obtain ⟨rfl, htu⟩ := (hlast a rfl).2 b (hlast' b rfl) _ _ (behind_closing ht)
          (behind_closing hu) hr
        exact ⟨rfl, rfl, (List.cons.inj htu).2⟩
      · exact absurd rfl (hdot _)
  | cons a vs ih =>
    rw [more_cons, List.cons_append, List.append_assoc] at h
    obtain ⟨⟨hplain, ha⟩, hvs⟩ := List.forall_mem_cons.1 hvs
    rcases more_cases (c := ' ') hws h with ⟨-, -, hc, -⟩ | ⟨b, -, -, -, hr⟩ |
      ⟨b, rest, rfl, -, hr, -⟩
    · exact absurd hc (by decide)
    · exact absurd hr (hplain.begins_ne (.inr rfl) _ _)
    · obtain ⟨hb, hrest⟩ := List.forall_mem_cons.1 hws
      have hmore := behind_more (fun a ha => (hvs a ha).1.readOutside)
        (fun a ha => (hlast a ha).1.readOutside) ht
      have hmore' := behind_more (fun b hb => (hrest b hb).readOutside)
        (fun b hb => (hlast' b hb).readOutside) hu
      obtain ⟨rfl, hmores⟩ := ha b hb _ _ hmore hmore' hr
      obtain ⟨rfl, rfl, rfl⟩ := ih hvs hrest hmores
      exact ⟨rfl, rfl, rfl⟩

/-- All the values of a vector are told from what is behind it, and that there are none is. -/
theorem inside_readBack {v w : ValueVector π} {t u : List Char}
    (hv : v.Holds fun a => a.Plain ∧ a.ReadBack) (hw : w.Holds Plain) (ht : Behind t)
    (hu : Behind u)
    (h : inside v.toList v.improperTail ++ t = inside w.toList w.improperTail ++ u) :
    v.toList = w.toList ∧ v.improperTail = w.improperTail ∧ t = u := by
  have hmore := more_readBack hv.elements hv.last hw.elements hw.last ht hu
  cases hvs : v.toList with
  | nil =>
    cases hws : w.toList with
    | nil =>
      rw [hvs, hws, inside_nil, inside_nil] at h
      rw [v.improperTail_of_toList_nil hvs, w.improperTail_of_toList_nil hws]
      exact ⟨rfl, rfl, (List.cons.inj h).2⟩
    | cons b ws =>
      rw [hvs, hws, inside_nil, inside_cons, List.append_assoc] at h
      have hb : b.Plain := hw.elements b (hws ▸ List.mem_cons_self)
      exact absurd h.symm (hb.begins_ne (.inl rfl) _ _)
  | cons a vs =>
    cases hws : w.toList with
    | nil =>
      rw [hvs, hws, inside_nil, inside_cons, List.append_assoc] at h
      have ha : a.Plain := (hv.elements a (hvs ▸ List.mem_cons_self)).1
      exact absurd h (ha.begins_ne (.inl rfl) _ _)
    | cons b ws =>
      rw [hvs, hws] at hmore
      rw [hvs, hws, inside_cons, inside_cons] at h
      refine hmore ?_
      rw [more_cons, more_cons]
      exact congrArg (' ' :: ·) h

/-- Vectors of both representations open differently, whatever is in them. -/
theorem opening_inj {v w : ValueVector π} {t u : List Char}
    (h : (Value.vector v).display.toList ++ t = (Value.vector w).display.toList ++ u) :
    v.kind = w.kind ∧
      inside v.toList v.improperTail ++ t = inside w.toList w.improperTail ++ u := by
  rw [toList_display_vector, toList_display_vector, List.append_assoc, List.append_assoc] at h
  cases hv : v.kind with
  | array =>
    cases hw : w.kind with
    | array =>
      rw [hv, hw] at h
      exact ⟨rfl, List.append_cancel_left h⟩
    | cons => simp [hv, hw, opening] at h
  | cons =>
    cases hw : w.kind with
    | array => simp [hv, hw, opening] at h
    | cons =>
      rw [hv, hw] at h
      exact ⟨rfl, List.append_cancel_left h⟩

/-- A vector and a value that is none differ in their first two characters. -/
theorem display_vector_ne {w : Value π} (v : ValueVector π) (hw : w.Plain)
    (hscalar : ∀ u, w ≠ .vector u) (t u : List Char) :
    (Value.vector v).display.toList ++ t ≠ w.display.toList ++ u := by
  rw [toList_display_vector]
  intro h
  cases hw with
  | null => cases hk : v.kind <;> simp [hk, opening, toList_display_null] at h
  | char => cases hk : v.kind <;> simp [hk, opening, toList_display_char] at h
  | str => cases hk : v.kind <;> simp [hk, opening, toList_display_str] at h
  | int => cases hk : v.kind <;> simp [hk, opening, toList_display_int] at h
  | array | nil | cons => exact absurd rfl (hscalar _)

theorem Plain.readBack {v : Value π} (h : v.Plain) : v.ReadBack := by
  refine h.induct ?_ ?_ ?_ ?_ ?_
  · intro w hw t u ht hu h
    cases w with
    | null => exact ⟨rfl, List.append_cancel_left h⟩
    | vector w => exact absurd h.symm (display_vector_ne w .null nofun u t)
    | float | custom => cases hw
    | char | str | int =>
      simp [toList_display_null, toList_display_char, toList_display_str, toList_display_int] at h
  · intro c w hw t u ht hu h
    cases w with
    | char d =>
      obtain ⟨rfl, rfl⟩ : c = d ∧ t = u := by simpa [toList_display_char] using h
      exact ⟨rfl, rfl⟩
    | vector w => exact absurd h.symm (display_vector_ne w .char nofun u t)
    | float | custom => cases hw
    | null | str | int =>
      simp [toList_display_null, toList_display_char, toList_display_str, toList_display_int] at h
  · intro s w hw t u ht hu h
    cases w with
    | str s' =>
      have hquotes : Text.escapeQuotes s.toList ++ '"' :: t =
          Text.escapeQuotes s'.toList ++ '"' :: u := by simpa [toList_display_str] using h
      obtain ⟨hs, rfl⟩ := Text.escapeQuotes_inj ht hu hquotes
      exact ⟨congrArg Value.str (String.toList_inj.1 hs), rfl⟩
    | vector w => exact absurd h.symm (display_vector_ne w .str nofun u t)
    | float | custom => cases hw
    | null | char | int =>
      simp [toList_display_null, toList_display_char, toList_display_str, toList_display_int] at h
  · intro n w hw t u ht hu h
    cases w with
    | int m =>
      have hdigits : (Decimal.ofInt n.toInt).toList ++ ')' :: t =
          (Decimal.ofInt m.toInt).toList ++ ')' :: u := by simpa [toList_display_int] using h
      obtain ⟨hn, rfl⟩ := Decimal.ofInt_closed_inj hdigits
      exact ⟨congrArg Value.int (Int64.toInt_inj.1 hn), rfl⟩
    | vector w => exact absurd h.symm (display_vector_ne w .int nofun u t)
    | float | custom => cases hw
    | null | char | str =>
      simp [toList_display_null, toList_display_char, toList_display_str, toList_display_int] at h
  · intro v hv w hw t u ht hu h
    by_cases hvector : ∃ w', w = .vector w'
    · obtain ⟨w, rfl⟩ := hvector
      obtain ⟨hkind, hinside⟩ := opening_inj h
      obtain ⟨hlist, hlast, htu⟩ := inside_readBack hv hw.holds ht hu hinside
      exact ⟨congrArg Value.vector (ValueVector.eq_of_elements hkind hlist hlast), htu⟩
    · exact absurd h (display_vector_ne v hw (fun w' heq => hvector ⟨w', heq⟩) t u)

/-- Two values without floats and payloads have the same canonical form only when they are the
same tree in the same representations. -/
theorem display_inj {v w : Value π} (hv : v.Plain) (hw : w.Plain) :
    v.display = w.display ↔ v = w := by
  refine ⟨fun h => ?_, congrArg display⟩
  have hend : Behind [] := ⟨trivial, .nil⟩
  exact (hv.readBack w hw [] [] hend hend (by rw [h])).1

/-- A backslash before a blank, and a string that begins as the written form of these does: the
first text is `("\" . " ")` and the second one is `("\" . ")`. -/
theorem backslash_display_ne : ∃ v w : Value Empty,
    v = .vector (.cons (.str "\\") (.str " ")) ∧ w = .vector (.cons (.str "\" . ") (.vector .nil)) ∧
      v.Plain ∧ w.Plain ∧ v.display ≠ w.display := by
  refine ⟨_, _, rfl, rfl, .cons .str .str, .cons .str .nil, fun h => ?_⟩
  have hvalues := (display_inj (.cons .str .str) (.cons .str .nil)).1 h
  simp at hvalues

end Value
end PegMatcher
