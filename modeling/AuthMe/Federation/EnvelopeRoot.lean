import AuthMe.Federation.EnvelopeQuotes
import AuthMe.Xml.Document

/-!
# The start tag that the envelope finds

What the regular expression for the root finds in a document: which prologs it accepts, which
prefixes, and how much of the start tag is in its group.
-/

namespace AuthMe.Federation.Envelope

open Xml

def blank : Misc → Bool
  | .space _ => true
  | _ => false

/-- The prologs that the expression accepts: blanks, and one declaration or instruction whose name
begins with `xml`, without a question mark in it. -/
def header : List Misc → Bool
  | [] => true
  | .space _ :: rest => header rest
  | .comment _ :: _ => false
  | .instruction body :: rest =>
    match strip "xml".toList body with
    | some body => !body.contains '?' && rest.all blank
    | none => false

/-- `[A-Za-z_][\w.-]*`. -/
def plainPrefix : List Char → Bool
  | [] => false
  | c :: rest => (('A' ≤ c && c ≤ 'Z') || ('a' ≤ c && c ≤ 'z') || c = '_') &&
      rest.all fun c => isWord c || c = '.' || c = '-'

/-- What the group has before the attributes, or nothing if the name is not accepted. A prefix that
begins with `Response` and goes on with a character outside `\w` is taken for the name. -/
def lead : Option (List Char) → Option (List Char)
  | none => some []
  | some pre =>
    if plainPrefix pre then some []
    else
      match strip "Response".toList pre with
      | some (c :: rest) => if isWord c then none else some (c :: rest ++ ':' :: "Response".toList)
      | _ => none

/-! ## Characters -/

theorem isWhiteSpace_of_isSpace {c : Char} (h : isSpace c = true) : Text.isWhiteSpace c = true := by
  have hc : c ∈ [' ', '\t', '\n', '\r'] := List.contains_iff_mem.mp h
  simp only [List.mem_cons, List.not_mem_nil, or_false] at hc
  rcases hc with rfl | rfl | rfl | rfl <;> decide

theorem dropWhile_of_not {p : Char → Bool} {c : Char} (h : p c = false) (text : List Char) :
    (c :: text).dropWhile p = c :: text := by
  simp [h]

/-- A text without the character, and then the character. -/
theorem dropWhile_until {p : Char → Bool} {c : Char} {before : List Char}
    (hbefore : ∀ d ∈ before, p d = true) (hc : p c = false) (text : List Char) :
    (before ++ c :: text).dropWhile p = c :: text := by
  induction before with
  | nil => simp [hc]
  | cons d before ih =>
    have hd := hbefore d (.head _)
    simpa [hd] using ih fun e he => hbefore e (.tail _ he)

theorem takeWhile_append_all {p : Char → Bool} {before : List Char} (hbefore : ∀ d ∈ before, p d = true)
    (text : List Char) : (before ++ text).takeWhile p = before ++ text.takeWhile p := by
  induction before with
  | nil => rfl
  | cons d before ih =>
    have hd := hbefore d (.head _)
    have hrest := ih fun e he => hbefore e (.tail _ he)
    simp [hd, hrest]

/-! ## The name -/

section

variable {tag : List Char}

/-- The character after the name of an element. -/
def Stops (tag : List Char) : Prop := ∃ c rest, tag = c :: rest ∧ (isSpace c = true ∨ c = '/' ∨ c = '>')

theorem not_word_of_stops {c : Char} (h : isSpace c = true ∨ c = '/' ∨ c = '>') :
    (isWord c || c = '.' || c = '-') = false ∧ c ≠ ':' := by
  have hc : c ∈ [' ', '\t', '\n', '\r', '/', '>'] := by
    rcases h with h | rfl | rfl
    · exact List.mem_append_left ['/', '>'] (List.contains_iff_mem.mp h)
    · decide
    · decide
  simp only [List.mem_cons, List.not_mem_nil, or_false] at hc
  rcases hc with rfl | rfl | rfl | rfl | rfl | rfl <;> decide

theorem afterName_response (hstops : Stops tag) (hclosed : '>' ∈ tag) :
    afterName ("Response".toList ++ tag) = some (tag.takeWhile (· ≠ '>')) := by
  obtain ⟨c, rest, rfl, hc⟩ := hstops
  obtain ⟨hword, -⟩ := not_word_of_stops hc
  simp only [Bool.or_eq_false_iff] at hword
  have hcontains : (c :: rest).contains '>' = true := List.contains_iff_mem.mpr hclosed
  have hstrip : strip "Response".toList ("Response".toList ++ c :: rest) = some (c :: rest) := by
    simp [strip]
  simp only [afterName, hstrip, List.head?_cons, Option.any_some, hword.1.1, hcontains, Bool.not_true,
    Bool.or_self, Bool.false_eq_true, if_false]

theorem afterPrefix_response (hstops : Stops tag) : afterPrefix ("Response".toList ++ tag) = none := by
  obtain ⟨c, rest, rfl, hc⟩ := hstops
  obtain ⟨hword, hcolon⟩ := not_word_of_stops hc
  have hdrop : ("esponse".toList ++ c :: rest).dropWhile (fun c => isWord c || c = '.' || c = '-') =
      c :: rest := dropWhile_until (List.all_eq_true.mp (by decide)) hword rest
  have hname : "Response".toList ++ c :: rest = 'R' :: ("esponse".toList ++ c :: rest) := by simp
  rw [hname]
  simp only [afterPrefix, hdrop]
  simp [hcolon]

theorem afterPrefix_plain {pre : List Char} (h : plainPrefix pre = true) (text : List Char) :
    afterPrefix (pre ++ ':' :: text) = some text := by
  cases pre with
  | nil => cases h
  | cons c rest =>
    simp only [plainPrefix, Bool.and_eq_true] at h
    have hrest : ∀ d ∈ rest, (isWord d || decide (d = '.') || decide (d = '-')) = true :=
      List.all_eq_true.mp h.2
    have hdrop := dropWhile_until hrest (c := ':') (by decide) text
    simp only [List.cons_append, afterPrefix, h.1, if_true, hdrop]

/-- A text has no character outside `p`, or a first one. -/
theorem all_or_first (p : Char → Bool) (text : List Char) :
    text.all p = true ∨ ∃ before c after, text = before ++ c :: after ∧
      (∀ d ∈ before, p d = true) ∧ p c = false := by
  induction text with
  | nil => exact .inl rfl
  | cons c text ih =>
    by_cases hc : p c = true
    · rcases ih with hall | ⟨before, d, after, rfl, hbefore, hd⟩
      · exact .inl (by simp [hc, hall])
      · refine .inr ⟨c :: before, d, after, rfl, ?_, hd⟩
        intro e he
        rcases List.mem_cons.mp he with rfl | he
        · exact hc
        · exact hbefore e he
    · exact .inr ⟨[], c, text, rfl, (fun d hd => by cases hd), eq_false_of_ne_true hc⟩

theorem afterPrefix_other {pre : List Char} (hname : NCName pre) (h : plainPrefix pre = false)
    (text : List Char) : afterPrefix (pre ++ ':' :: text) = none := by
  obtain ⟨c, rest, rfl, -⟩ := hname.start
  by_cases hc : (('A' ≤ c && c ≤ 'Z') || ('a' ≤ c && c ≤ 'z') || decide (c = '_')) = true
  · rcases all_or_first (fun c => isWord c || decide (c = '.') || decide (c = '-')) rest with
      hall | ⟨before, d, after, rfl, hbefore, hd⟩
    · have hplain : plainPrefix (c :: rest) = true := by
        simp only [plainPrefix, hc, Bool.true_and]
        exact hall
      rw [hplain] at h
      cases h
    · have hcolon : d ≠ ':' := (hname.chars d (by simp)).2
      have hdrop := dropWhile_until hbefore hd (after ++ ':' :: text)
      have hassoc : c :: (before ++ d :: after) ++ ':' :: text =
          c :: (before ++ d :: (after ++ ':' :: text)) := by simp
      rw [hassoc]
      simp only [afterPrefix, hc, if_true, hdrop]
      split
      · rename_i heq
        exact absurd (List.cons.inj heq).1 hcolon
      · rfl
  · simp only [List.cons_append, afterPrefix, hc]
    rfl

/-- The name with a prefix is taken only for `Response` and more. -/
theorem afterName_prefixed {pre : List Char} (hname : NCName pre) (h : plainPrefix pre = false)
    (hclosed : '>' ∈ tag) : afterName (pre ++ ':' :: ("Response".toList ++ tag)) =
      (lead (some pre)).map (· ++ tag.takeWhile (· ≠ '>')) := by
  have hcolon : ':' ∉ "Response".toList := by decide
  simp only [afterName, lead, h, strip_append hcolon]
  cases hstrip : strip "Response".toList pre with
  | none => rfl
  | some rest =>
    have hpre := strip_some hstrip
    cases rest with
    | nil =>
      rw [hpre] at h
      exact absurd h (by decide)
    | cons c rest =>
      have hcontains : (c :: rest ++ ':' :: ("Response".toList ++ tag)).contains '>' = true := by
        simp [hclosed]
      by_cases hc : isWord c = true
      · simp [hc]
      · have hword : isWord c = false := eq_false_of_ne_true hc
        have hfixed : ∀ d ∈ ':' :: "Response".toList, decide (d ≠ '>') = true :=
          List.all_eq_true.mp (by decide)
        have hmem : ∀ d ∈ c :: rest ++ ':' :: "Response".toList, decide (d ≠ '>') = true := by
          intro d hd
          rcases List.mem_append.mp hd with hd | hd
          · have hchar := (hname.chars d (hpre ▸ List.mem_append_right _ hd)).1
            apply decide_eq_true
            rintro rfl
            rw [isNameChar_eq_false (by simp)] at hchar
            cases hchar
          · exact hfixed d hd
        have htake := takeWhile_append_all hmem tag
        simp only [List.append_assoc, List.cons_append] at htake hcontains
        simp only [Option.map_some, List.cons_append, List.append_assoc, List.head?_cons, Option.any_some,
          hword, hcontains, Bool.not_true, Bool.or_self, Bool.false_eq_true, if_false, htake]

/-- The name of a `Response` element. -/
def responseName : Option (List Char) → List Char
  | none => "Response".toList
  | some pre => pre ++ ':' :: "Response".toList

theorem lead_of_plain {pre : List Char} (h : plainPrefix pre = true) : lead (some pre) = some [] := by
  simp only [lead, h, if_true]

theorem responseTag_eq {pre : Option (List Char)} (hpre : ∀ p, pre = some p → NCName p)
    (hstops : Stops tag) (hclosed : '>' ∈ tag) : responseTag ('<' :: (responseName pre ++ tag)) =
      (lead pre).map (· ++ tag.takeWhile (· ≠ '>')) := by
  cases pre with
  | none =>
    have hname := afterName_response hstops hclosed
    unfold responseTag responseName
    simp only [afterPrefix_response hstops, hname, Option.bind_none, Option.none_or]
    rfl
  | some pre =>
    have hassoc : responseName (some pre) ++ tag = pre ++ ':' :: ("Response".toList ++ tag) :=
      List.append_assoc pre (':' :: "Response".toList) tag
    rw [hassoc]
    unfold responseTag
    by_cases h : plainPrefix pre = true
    · have hname := afterName_response hstops hclosed
      simp only [afterPrefix_plain h, Option.bind_some, hname, lead_of_plain h, Option.some_or]
      rfl
    · have hother : plainPrefix pre = false := eq_false_of_ne_true h
      have hname := hpre pre rfl
      simp only [afterPrefix_other hname hother, afterName_prefixed hname hother hclosed, Option.bind_none,
        Option.none_or]

end

/-! ## The prolog -/

theorem isWhiteSpace_open : Text.isWhiteSpace '<' = false := by decide

theorem responseTag_mark {c : Char} (hc : c = '!' ∨ c = '?') (text : List Char) :
    responseTag ('<' :: c :: text) = none := by
  rcases hc with rfl | rfl <;> rfl

theorem afterDeclaration_other {c : Char} (hc : c ≠ '?') (text : List Char) :
    afterDeclaration ('<' :: c :: text) = none := by
  have hstrip : strip "<?xml".toList ('<' :: c :: text) = none := by simp [strip, Ne.symm hc]
  rw [afterDeclaration, hstrip]

/-- After the declaration there are blanks, or the expression finds nothing. -/
theorem responseTag_blanks {prolog : List Misc} (h : ∀ m ∈ prolog, m.WellFormed) (text : List Char) :
    responseTag ((prolog.flatMap Misc.text ++ '<' :: text).dropWhile Text.isWhiteSpace) =
      if prolog.all blank then responseTag ('<' :: text) else none := by
  induction prolog with
  | nil =>
    simp only [List.flatMap_nil, List.nil_append, List.all_nil, if_true]
    rw [dropWhile_of_not isWhiteSpace_open]
  | cons m rest ih =>
    have hrest := ih fun m hm => h m (.tail _ hm)
    cases m with
    | space c =>
      have hc := isWhiteSpace_of_isSpace ((h _ (.head _)).space c rfl)
      simpa [Misc.text, hc, blank] using hrest
    | comment body =>
      simp only [List.flatMap_cons, Misc.text, List.cons_append, List.all_cons, blank, Bool.false_and,
        Bool.false_eq_true, if_false]
      rw [dropWhile_of_not isWhiteSpace_open]
      exact responseTag_mark (.inl rfl) _
    | instruction body =>
      simp only [List.flatMap_cons, Misc.text, List.cons_append, List.all_cons, blank, Bool.false_and,
        Bool.false_eq_true, if_false]
      rw [dropWhile_of_not isWhiteSpace_open]
      exact responseTag_mark (.inr rfl) _

/-- The instruction ends at its first question mark, or the expression finds no declaration. -/
theorem afterDeclaration_instruction {body : List Char} (h : ¬ ['?', '>'] <:+: body) (text : List Char) :
    afterDeclaration ('<' :: '?' :: (body ++ '?' :: '>' :: text)) =
      match strip "xml".toList body with
      | some body => if body.contains '?' then none else some (text.dropWhile Text.isWhiteSpace)
      | none => none := by
  have hnot : '?' ∉ "xml".toList := by decide
  have hstrip : strip "<?xml".toList ('<' :: '?' :: (body ++ '?' :: '>' :: text)) =
      strip "xml".toList (body ++ '?' :: '>' :: text) := rfl
  rw [afterDeclaration, hstrip, strip_append hnot]
  cases hbody : strip "xml".toList body with
  | none => rfl
  | some body' =>
    simp only [Option.map_some]
    rcases all_or_first (fun c => decide (c ≠ '?')) body' with hall | ⟨before, c, after, rfl, hbefore, hc⟩
    · have hnone : '?' ∉ body' := fun hmem => absurd (List.all_eq_true.mp hall _ hmem) (by decide)
      have hdrop := dropWhile_until (List.all_eq_true.mp hall) (c := '?') (by decide) ('>' :: text)
      simp only [hdrop, List.contains_iff_mem, hnone, if_false]
    · have hc' : c = '?' := by simpa using hc
      subst hc'
      have hdrop := dropWhile_until hbefore hc (after ++ '?' :: '>' :: text)
      have hin : ¬ ['?', '>'] <:+: before ++ '?' :: after := by
        intro hin
        apply h
        rw [strip_some hbody]
        exact hin.trans (List.suffix_append _ _).isInfix
      have hmem : (before ++ '?' :: after).contains '?' = true := by simp
      rw [List.append_assoc, List.cons_append, hdrop, if_pos hmem]
      cases after with
      | nil => rfl
      | cons d after =>
        have hd : d ≠ '>' := by
          rintro rfl
          exact hin ⟨before, after, by simp⟩
        simp only [List.cons_append]
        split
        · rename_i heq
          exact absurd (List.cons.inj (List.cons.inj heq).2).1 hd
        · rfl

theorem root_of_dropWhile {xml text : List Char} (h : xml.dropWhile Text.isWhiteSpace = text) :
    root xml = ((afterDeclaration text).bind responseTag).or (responseTag text) := by
  rw [← h]
  rfl

theorem root_space {c : Char} (hc : Text.isWhiteSpace c = true) (xml : List Char) :
    root (c :: xml) = root xml := by
  rw [root_of_dropWhile rfl, List.dropWhile_cons_of_pos hc]
  rfl

/-- The root is found after the prologs that the expression accepts. -/
theorem root_eq {prolog : List Misc} (h : ∀ m ∈ prolog, m.WellFormed) {c : Char} (hc : c ≠ '?')
    (text : List Char) : root (prolog.flatMap Misc.text ++ '<' :: c :: text) =
      if header prolog then responseTag ('<' :: c :: text) else none := by
  induction prolog with
  | nil =>
    rw [List.flatMap_nil, List.nil_append, root_of_dropWhile (dropWhile_of_not isWhiteSpace_open _),
      afterDeclaration_other hc]
    rfl
  | cons m rest ih =>
    have hforall : ∀ m ∈ rest, m.WellFormed := fun m hm => h m (.tail _ hm)
    cases m with
    | space d =>
      have hd := isWhiteSpace_of_isSpace ((h _ (.head _)).space d rfl)
      have hskip := root_space hd (rest.flatMap Misc.text ++ '<' :: c :: text)
      exact hskip.trans (ih hforall)
    | comment body =>
      simp only [List.flatMap_cons, Misc.text, List.cons_append, header, Bool.false_eq_true, if_false]
      rw [root_of_dropWhile (dropWhile_of_not isWhiteSpace_open _), afterDeclaration_other (by decide),
        responseTag_mark (.inl rfl)]
      rfl
    | instruction body =>
      have hbody := (h _ (.head _)).instruction body rfl
      have htext : (Misc.instruction body :: rest).flatMap Misc.text ++ '<' :: c :: text =
          '<' :: '?' :: (body ++ '?' :: '>' :: (rest.flatMap Misc.text ++ '<' :: c :: text)) := by
        simp [Misc.text]
      rw [htext, root_of_dropWhile (dropWhile_of_not isWhiteSpace_open _),
        afterDeclaration_instruction hbody, responseTag_mark (.inr rfl)]
      simp only [header]
      rcases Option.eq_none_or_eq_some (strip "xml".toList body) with hstrip | ⟨body', hstrip⟩
      · simp only [hstrip, Option.bind_none, Option.or_none, Bool.false_eq_true, if_false]
      · by_cases hmark : body'.contains '?' = true
        · simp only [hstrip, hmark, if_true, Bool.not_true, Bool.false_and, Bool.false_eq_true, if_false,
            Option.bind_none, Option.or_none]
        · have hblanks := responseTag_blanks hforall (c :: text)
          simp only [hstrip, hmark, Bool.false_eq_true, if_false, Option.bind_some, Option.or_none, hblanks,
            Bool.not_false, Bool.true_and]

end AuthMe.Federation.Envelope
