import HostLookup.Name.Reader
import HostLookup.Proofs.Text.Numerals
import Mathlib.Data.List.Basic

/-!
The spelling of names. A symbol is written as one character or as an escape, and a text is read as
the symbols whose written forms it consists of. What stands behind a text is therefore read on its
own, unless the text ends in a backslash, which would escape it.
-/
set_option autoImplicit false

namespace HostLookup.DomainName

/-- The ways to write a symbol. -/
inductive Symbol.Written : Symbol → List Char → Prop where
  | separator : Written .separator ['.']
  | plain {c : Char} : isPrintable c = true → c ≠ '.' → c ≠ '\\' →
      Written (.octet (UInt8.ofNat c.toNat)) [c]
  | escaped {c : Char} : isPrintable c = true → c.isDigit = false → c ≠ '[' →
      Written (.octet (UInt8.ofNat c.toNat)) ['\\', c]
  | bracket : Written .bracket ['\\', '[']
  | numbered {c d e : Char} {n : Nat} : Text.numeral 10 256 [c, d, e] = some n →
      Written (.octet (UInt8.ofNat n)) ['\\', c, d, e]

/-- A text consists of written forms of symbols. -/
inductive Spelling : List Symbol → List Char → Prop where
  | nil : Spelling [] []
  | cons {s : Symbol} {w : List Char} {ss : List Symbol} {cs : List Char} :
      s.Written w → Spelling ss cs → Spelling (s :: ss) (w ++ cs)

variable {s : Symbol} {w bs cs ds : List Char} {ss ts : List Symbol}

theorem isDigit_of_numeral {n : Nat} (h : Text.numeral 10 256 cs = some n) :
    ∀ c ∈ cs, c.isDigit = true :=
  (Text.numeral_ten_eq_some_iff.mp h).2.1

theorem symbols_escape {c : Char} (h : c.isDigit = false) (cs : List Char) :
    symbols ('\\' :: c :: cs) =
      if isPrintable c then
        (symbols cs).map ((if c = '[' then .bracket else .octet (UInt8.ofNat c.toNat)) :: ·)
      else none := by
  -- The reader looks at the two characters behind first, in case the escape is a number.
  rcases cs with _ | ⟨d, _ | ⟨e, rest⟩⟩ <;> simp [symbols, h]

/-- The written form of a symbol is read as the symbol, whatever stands behind it. -/
theorem symbols_written (h : s.Written w) (cs : List Char) :
    symbols (w ++ cs) = (symbols cs).map (s :: ·) := by
  cases h with
  | separator => rfl
  | @plain c hc hdot hbackslash =>
    rw [List.singleton_append, symbols, if_pos hc]
    · exact fun h => absurd h hbackslash
    · exact fun _ _ h => absurd h hbackslash
    · exact hdot
  | @escaped c hc hdigit hbracket =>
    rw [List.cons_append, List.singleton_append, symbols_escape hdigit, if_pos hc, if_neg hbracket]
  | bracket =>
    have hdigit : '['.isDigit = false := by decide
    rw [List.cons_append, List.singleton_append, symbols_escape hdigit]
    rfl
  | @numbered c d e n hn =>
    have hc : c.isDigit = true := isDigit_of_numeral hn c List.mem_cons_self
    simp only [List.cons_append, List.nil_append, symbols, if_pos hc, hn]
    cases symbols cs <;> rfl

theorem Spelling.symbols_append (h : Spelling ss cs) (ds : List Char) :
    symbols (cs ++ ds) = (symbols ds).map (ss ++ ·) := by
  induction h with
  | nil => exact Option.map_id'.symm
  | cons hs _ ih =>
    rw [List.append_assoc, symbols_written hs, ih, Option.map_map]
    rfl

/-- What starts with a backslash is an escape or ends with it. -/
theorem ne_backslash {c : Char} (hlast : c = '\\' → cs = [] → False)
    (hescape : ∀ d ds, c = '\\' → cs = d :: ds → False) : c ≠ '\\' := by
  intro hc
  cases cs with
  | nil => exact hlast hc rfl
  | cons d cs => exact hescape d cs hc rfl

theorem spelling_of_symbols (h : symbols cs = some ss) : Spelling ss cs := by
  fun_induction symbols cs generalizing ss with
  | case1 =>
    cases h
    exact .nil
  | case3 c hc d e rest ih =>
    obtain ⟨n, hn, h⟩ := Option.bind_eq_some_iff.mp h
    obtain ⟨ts, hts, h⟩ := Option.bind_eq_some_iff.mp h
    cases h
    exact .cons (.numbered hn) (ih hts)
  | case5 c cs hdigit hc ih =>
    obtain ⟨ts, hts, rfl⟩ := Option.map_eq_some_iff.mp h
    split
    · rename_i hbracket
      rw [hbracket]
      exact .cons .bracket (ih hts)
    · rename_i hbracket
      exact .cons (.escaped hc (eq_false_of_ne_true hdigit) hbracket) (ih hts)
  | case7 cs ih =>
    obtain ⟨ts, hts, rfl⟩ := Option.map_eq_some_iff.mp h
    exact .cons .separator (ih hts)
  | case8 c cs hlast hescape hdot hc ih =>
    obtain ⟨ts, hts, rfl⟩ := Option.map_eq_some_iff.mp h
    exact .cons (.plain hc hdot (ne_backslash hlast hescape)) (ih hts)
  | case2 | case4 | case6 | case9 => cases h

/-- A text is read as the symbols that it spells. -/
theorem symbols_eq_some_iff : symbols cs = some ss ↔ Spelling ss cs := by
  constructor
  · exact spelling_of_symbols
  · intro h
    have hread := h.symbols_append []
    rw [List.append_nil] at hread
    rw [hread, symbols, Option.map_some, List.append_nil]

theorem Spelling.append (h : Spelling ss cs) (h' : Spelling ts ds) :
    Spelling (ss ++ ts) (cs ++ ds) := by
  rw [← symbols_eq_some_iff, h.symbols_append, symbols_eq_some_iff.mpr h', Option.map_some]

/-- A text that spells a last symbol ends in a written form of it. -/
theorem Spelling.of_concat (h : Spelling (ss ++ [s]) cs) :
    ∃ bs w, Spelling ss bs ∧ s.Written w ∧ cs = bs ++ w := by
  generalize hts : ss ++ [s] = ts at h
  induction h generalizing ss with
  | nil => simp at hts
  | @cons t v ts cs ht hcs ih =>
    cases ss with
    | nil =>
      obtain ⟨rfl, rfl⟩ := List.cons.inj hts
      cases hcs
      exact ⟨[], v, .nil, ht, List.append_nil v⟩
    | cons r ss =>
      obtain ⟨rfl, rfl⟩ := List.cons.inj hts
      obtain ⟨bs, w, hbs, hw, rfl⟩ := ih rfl
      exact ⟨v ++ bs, w, .cons ht hbs, hw, (List.append_assoc v bs w).symm⟩

theorem Symbol.Written.ne_nil (h : s.Written w) : w ≠ [] := by
  cases h <;> simp

/-- Only a separator and an escaped dot are written with a dot at the end. -/
theorem Symbol.Written.of_getLast_dot (h : s.Written w) (hlast : w.getLast? = some '.') :
    s = .separator ∧ w = ['.'] ∨ s = .octet 46 ∧ w = ['\\', '.'] := by
  cases h with
  | separator => exact .inl ⟨rfl, rfl⟩
  | plain _ hdot _ => exact absurd (Option.some.inj hlast) hdot
  | escaped _ _ _ =>
    cases Option.some.inj hlast
    exact .inr ⟨rfl, rfl⟩
  | bracket => cases Option.some.inj hlast
  | @numbered c d e n hn =>
    have he : e = '.' := Option.some.inj hlast
    have hdigit : e.isDigit = true := isDigit_of_numeral hn e (by simp)
    rw [he] at hdigit
    cases hdigit

/-- The text ends in a backslash that would escape what is put behind it. -/
def endsOpen : List Char → Bool
  | [] => false
  | ['\\'] => true
  | '\\' :: _ :: cs => endsOpen cs
  | _ :: cs => endsOpen cs

theorem endsOpen_cons {c : Char} (h : c ≠ '\\') (cs : List Char) :
    endsOpen (c :: cs) = endsOpen cs := by
  rw [endsOpen]
  · exact fun hc => absurd hc h
  · exact fun _ _ hc => absurd hc h

theorem endsOpen_escape (c : Char) (cs : List Char) :
    endsOpen ('\\' :: c :: cs) = endsOpen cs := rfl

theorem Symbol.Written.endsOpen_append (h : s.Written w) (cs : List Char) :
    endsOpen (w ++ cs) = endsOpen cs := by
  cases h with
  | separator => exact endsOpen_cons (by decide) cs
  | plain _ _ hbackslash => exact endsOpen_cons hbackslash cs
  | escaped => exact endsOpen_escape _ cs
  | bracket => exact endsOpen_escape _ cs
  | @numbered c d e n hn =>
    have hd : d ≠ '\\' := by
      rintro rfl
      cases isDigit_of_numeral hn '\\' (by simp)
    have he : e ≠ '\\' := by
      rintro rfl
      cases isDigit_of_numeral hn '\\' (by simp)
    exact (endsOpen_cons hd (e :: cs)).trans (endsOpen_cons he cs)

theorem Spelling.endsOpen_append (h : Spelling ss cs) (ds : List Char) :
    endsOpen (cs ++ ds) = endsOpen ds := by
  induction h with
  | nil => rfl
  | cons hs _ ih => rw [List.append_assoc, hs.endsOpen_append, ih]

theorem Spelling.endsOpen_eq_false (h : Spelling ss cs) : endsOpen cs = false := by
  have hopen := h.endsOpen_append []
  rwa [List.append_nil] at hopen

/-- A text that ends in a dot spells a separator there, unless the dot is escaped. -/
theorem Spelling.of_concat_dot {us : List Symbol} (h : Spelling us (cs ++ ['.'])) :
    (∃ ss, us = ss ++ [.separator] ∧ Spelling ss cs) ∨
      ∃ ss bs, us = ss ++ [.octet 46] ∧ Spelling ss bs ∧ cs = bs ++ ['\\'] := by
  have hne : us ≠ [] := by
    rintro rfl
    generalize htext : cs ++ ['.'] = text at h
    cases h
    simp at htext
  obtain ⟨ss, s, rfl⟩ := (List.eq_nil_or_concat' us).resolve_left hne
  obtain ⟨bs, w, hbs, hw, htext⟩ := h.of_concat
  have hlast : w.getLast? = some '.' := by
    have htextlast := congrArg List.getLast? htext
    rwa [List.getLast?_concat, List.getLast?_append_of_ne_nil _ hw.ne_nil, eq_comm] at htextlast
  rcases hw.of_getLast_dot hlast with ⟨rfl, rfl⟩ | ⟨rfl, rfl⟩
  · left
    rw [List.append_cancel_right htext]
    exact ⟨ss, rfl, hbs⟩
  · right
    refine ⟨ss, bs, rfl, hbs, ?_⟩
    exact List.append_cancel_right (htext.trans (List.append_assoc bs ['\\'] ['.']).symm)

end HostLookup.DomainName
