import AuthMe.Federation.Envelope
import Mathlib.Data.List.Chain
import Mathlib.Data.List.TakeWhile

/-!
# Attributes by their quotes

The pattern of `extractAttributes` reads a text by the quotes in it. The quotes cut the text into
segments. A segment that ends with `name =` is followed by a value if the next two quotes are of one
kind; the value is the segment between them. Nothing else is a match.
-/

namespace AuthMe.Federation.Envelope

/-- A part of a text without quotes, and the quote after it. -/
structure Segment where
  text : List Char
  quote : Char
  /-- A mark, which nothing here reads. -/
  own : Bool := false
  deriving DecidableEq

/-- What comes after the last quote is left out. -/
def segments : List Char → List Segment
  | [] => []
  | c :: text =>
    if isQuote c then { text := [], quote := c } :: segments text
    else
      match segments text with
      | [] => []
      | s :: rest => { s with text := c :: s.text } :: rest

/-- The segment ends with `\sname\s*=\s*`. -/
def asks (name : List Char) : List Char → Bool
  | [] => false
  | c :: text => (Text.isWhiteSpace c && matchHead name text = some []) || asks name text

/-- The values, with the marks of the segments before them. -/
def readings (name : List Char) : List Segment → List (Bool × List Char)
  | s :: value :: rest =>
    if asks name s.text && s.quote = value.quote then (s.own, value.text) :: readings name rest
    else readings name (value :: rest)
  | _ => []

/-! ## Lists -/

def Quoteless (text : List Char) : Prop := ∀ c ∈ text, isQuote c = false

theorem Quoteless.tail {c : Char} {text : List Char} (h : Quoteless (c :: text)) : Quoteless text :=
  fun d hd => h d (.tail _ hd)

theorem isWhiteSpace_quote {q : Char} (hq : isQuote q = true) : Text.isWhiteSpace q = false := by
  simp only [isQuote, Bool.or_eq_true, decide_eq_true_eq] at hq
  rcases hq with rfl | rfl <;> decide

theorem segments_append {text : List Char} (h : Quoteless text) {q : Char} (hq : isQuote q = true)
    (rest : List Char) : segments (text ++ q :: rest) = { text := text, quote := q } :: segments rest := by
  induction text with
  | nil => simp [segments, hq]
  | cons c text ih =>
    have hc : isQuote c = false := h c (.head _)
    simp [segments, hc, ih h.tail]

theorem segments_of_quoteless {text : List Char} (h : Quoteless text) : segments text = [] := by
  induction text with
  | nil => rfl
  | cons c text ih =>
    have hc : isQuote c = false := h c (.head _)
    simp [segments, hc, ih h.tail]

/-- A text has no quote, or a first one. -/
theorem quoteless_or (text : List Char) :
    Quoteless text ∨ ∃ before q after, text = before ++ q :: after ∧ Quoteless before ∧
      isQuote q = true := by
  induction text with
  | nil => exact .inl fun c hc => by cases hc
  | cons c text ih =>
    by_cases hc : isQuote c = true
    · exact .inr ⟨[], c, text, rfl, (fun d hd => by cases hd), hc⟩
    · have hc' : isQuote c = false := eq_false_of_ne_true hc
      have hcons : ∀ before, Quoteless before → Quoteless (c :: before) := by
        intro before hbefore d hd
        rcases List.mem_cons.mp hd with rfl | hd
        · exact hc'
        · exact hbefore d hd
      rcases ih with hnone | ⟨before, q, after, rfl, hbefore, hq⟩
      · exact .inl (hcons text hnone)
      · exact .inr ⟨c :: before, q, after, rfl, hcons before hbefore, hq⟩

theorem dropWhile_append_quote {p : Char → Bool} {q : Char} (hq : p q = false) (text rest : List Char) :
    (text ++ q :: rest).dropWhile p = text.dropWhile p ++ q :: rest := by
  induction text with
  | nil => simp [hq]
  | cons c text ih =>
    by_cases hc : p c = true
    · simp [hc, ih]
    · simp [hc]

theorem takeWhile_quoteless {text : List Char} (h : Quoteless text) {q : Char} (hq : isQuote q = true)
    (rest : List Char) : (text ++ q :: rest).takeWhile (!isQuote ·) = text ∧
      (text ++ q :: rest).dropWhile (!isQuote ·) = q :: rest := by
  induction text with
  | nil => simp [hq]
  | cons c text ih =>
    have hc : isQuote c = false := h c (.head _)
    obtain ⟨htake, hdrop⟩ := ih h.tail
    simp [hc, htake, hdrop]

/-! ## One match -/

variable {name : List Char} {q : Char}

theorem strip_append (hname : q ∉ name) (text rest : List Char) :
    strip name (text ++ q :: rest) = (strip name text).map (· ++ q :: rest) := by
  induction name generalizing text with
  | nil => rfl
  | cons p ps ih =>
    have hne : p ≠ q := fun h => hname (h ▸ .head _)
    have htail : q ∉ ps := fun h => hname (.tail _ h)
    cases text with
    | nil => simp [strip, hne]
    | cons c text =>
      by_cases hc : p = c
      · simpa [strip, hc] using ih htail text
      · simp [strip, hc]

/-- What stands before the value is before the quote. -/
theorem matchHead_append (hname : Quoteless name) (hq : isQuote q = true) (text rest : List Char) :
    matchHead name (text ++ q :: rest) = (matchHead name text).map (· ++ q :: rest) := by
  have hspace := isWhiteSpace_quote hq
  have hnot : q ∉ name := by
    intro h
    rw [hname q h] at hq
    cases hq
  unfold matchHead
  rw [strip_append hnot]
  cases strip name text with
  | none => rfl
  | some text' =>
    simp only [Option.map_some, dropWhile_append_quote hspace]
    cases htext : text'.dropWhile Text.isWhiteSpace with
    | nil =>
      have hne : q ≠ '=' := by
        rintro rfl
        cases hq
      simp [hne]
    | cons c text'' =>
      by_cases hc : c = '='
      · subst hc
        simp [dropWhile_append_quote hspace]
      · simp [hc]

theorem strip_quoteless {text rest : List Char} (htext : Quoteless text) (h : strip name text = some rest) :
    Quoteless rest := by
  induction name generalizing text with
  | nil =>
    cases h
    exact htext
  | cons p ps ih =>
    cases text with
    | nil => cases h
    | cons c text =>
      simp only [strip] at h
      split at h
      · exact ih htext.tail h
      · cases h

theorem Quoteless.dropWhile {text : List Char} (h : Quoteless text) (p : Char → Bool) :
    Quoteless (text.dropWhile p) := fun c hc => h c ((List.dropWhile_sublist p).subset hc)

theorem matchHead_quoteless {text rest : List Char} (htext : Quoteless text)
    (h : matchHead name text = some rest) : Quoteless rest := by
  unfold matchHead at h
  split at h
  · cases h
  · rename_i text' hstrip
    split at h
    · rename_i rest' hdrop
      cases h
      have hrest := (strip_quoteless htext hstrip).dropWhile Text.isWhiteSpace
      rw [hdrop] at hrest
      exact hrest.tail.dropWhile _
    · cases h

theorem matchAt_quoteless {text : List Char} (htext : Quoteless text) : matchAt name text = none := by
  unfold matchAt
  split
  · rename_i c rest hmatch
    have hc : isQuote c = false := matchHead_quoteless htext hmatch c (.head _)
    simp [hc]
  · rfl

theorem matchAt_append (hname : Quoteless name) (hq : isQuote q = true) {text : List Char}
    (htext : Quoteless text) (rest : List Char) : matchAt name (text ++ q :: rest) =
      if matchHead name text = some [] then valueAt q rest else none := by
  unfold matchAt
  rw [matchHead_append hname hq]
  cases hmatch : matchHead name text with
  | none => simp
  | some head =>
    cases head with
    | nil => simp [hq]
    | cons c head =>
      have hc : isQuote c = false := matchHead_quoteless htext hmatch c (.head _)
      simp [hc]

/-! ## All matches -/

theorem scan_quoteless {text : List Char} (htext : Quoteless text) (fuel : Nat) :
    scan name fuel text = [] := by
  induction fuel generalizing text with
  | zero => rfl
  | succ fuel ih =>
    cases text with
    | nil => rfl
    | cons c text => simp [scan, matchAt_quoteless htext.tail, ih htext.tail]

theorem readings_cons {name : List Char} {s : Segment} (h : asks name s.text = false) (rest : List Segment) :
    readings name (s :: rest) = readings name rest := by
  cases rest with
  | nil => rfl
  | cons value rest => simp [readings, h]

/-- What can stand after the quote `q`: a value, or nothing that is one. -/
theorem valueAt_cases (q : Char) (text : List Char) :
    (∃ value rest, Quoteless value ∧ isQuote q = true ∧ text = value ++ q :: rest ∧
      valueAt q text = some (value, rest)) ∨
    (valueAt q text = none ∧ ∀ name before own,
      readings name (⟨before, q, own⟩ :: segments text) = readings name (segments text)) := by
  rcases quoteless_or text with hnone | ⟨value, q', rest, rfl, hvalue, hq'⟩
  · refine .inr ⟨?_, fun name before own => ?_⟩
    · have hdrop : text.dropWhile (!isQuote ·) = [] := by
        apply List.dropWhile_eq_nil_iff.mpr
        intro c hc
        simp [hnone c hc]
      simp [valueAt, hdrop]
    · rw [segments_of_quoteless hnone]
      rfl
  · obtain ⟨htake, hdrop⟩ := takeWhile_quoteless hvalue hq' rest
    by_cases hq : q' = q
    · subst hq
      exact .inl ⟨value, rest, hvalue, hq', rfl, by simp [valueAt, htake, hdrop]⟩
    · refine .inr ⟨by simp [valueAt, hdrop, hq], fun name before own => ?_⟩
      rw [segments_append hvalue hq']
      simp [readings, Ne.symm hq]

/-- The matches are the readings of the segments. -/
theorem scan_eq_readings (hname : Quoteless name) (fuel : Nat) (text : List Char)
    (hfuel : text.length ≤ fuel) :
    scan name fuel text = (readings name (segments text)).map Prod.snd := by
  induction fuel generalizing text with
  | zero =>
    have htext : text = [] := List.eq_nil_of_length_eq_zero (Nat.le_zero.mp hfuel)
    subst htext
    rfl
  | succ fuel ih =>
    rcases quoteless_or text with hnone | ⟨before, q, rest, rfl, hbefore, hq⟩
    · rw [scan_quoteless hnone, segments_of_quoteless hnone]
      rfl
    rw [segments_append hbefore hq]
    cases before with
    | nil =>
      have hlength : rest.length ≤ fuel := by simpa using hfuel
      rw [readings_cons rfl, ← ih rest hlength]
      simp [scan, isWhiteSpace_quote hq]
    | cons c before =>
      have htail := hbefore.tail
      have hlength : (before ++ q :: rest).length ≤ fuel := by simpa using hfuel
      have hih := ih (before ++ q :: rest) hlength
      rw [segments_append htail hq] at hih
      simp only [List.cons_append, scan]
      rw [matchAt_append hname hq htail]
      by_cases hmatch : Text.isWhiteSpace c = true ∧ matchHead name before = some []
      · rw [if_pos hmatch.1, if_pos hmatch.2]
        rcases valueAt_cases q rest with ⟨value, after, hvalue, -, rfl, hat⟩ | ⟨hat, hsame⟩
        · have hlength' : after.length ≤ fuel := by
            simp only [List.length_append, List.length_cons] at hlength
            omega
          rw [hat, segments_append hvalue hq]
          simp [readings, asks, hmatch, ih after hlength']
        · rw [hat]
          simp only [hih]
          rw [hsame, hsame]
      · have hasks : asks name (c :: before) = asks name before := by
          have hfirst : (Text.isWhiteSpace c && decide (matchHead name before = some [])) = false := by
            simpa using hmatch
          simp [asks, hfirst]
        have hskip : scan name fuel (before ++ q :: rest) = (readings name
            (⟨c :: before, q, false⟩ :: segments rest)).map Prod.snd := by
          rw [hih]
          cases segments rest with
          | nil => rfl
          | cons value rest => simp [readings, hasks]
        by_cases hspace : Text.isWhiteSpace c = true
        · have hno : ¬ matchHead name before = some [] := fun h => hmatch ⟨hspace, h⟩
          rw [if_pos hspace, if_neg hno]
          exact hskip
        · rw [if_neg hspace]
          exact hskip

/-- If the text does not begin with the name, it is read by its segments. -/
theorem matchAll_eq_readings (hname : Quoteless name) {text : List Char} (hstart : strip name text = none) :
    matchAll name text = (readings name (segments text)).map Prod.snd := by
  have hat : matchAt name text = none := by simp [matchAt, matchHead, hstart]
  rw [matchAll, hat]
  exact scan_eq_readings hname _ _ (Nat.le_refl _)

/-! ## Cuts, joins and marks -/

theorem segments_ne_nil (hq : isQuote q = true) (text rest : List Char) :
    segments (text ++ q :: rest) ≠ [] := by
  induction text with
  | nil => simp [segments, hq]
  | cons c text ih =>
    by_cases hc : isQuote c = true
    · simp [segments, hc]
    · cases htext : segments (text ++ q :: rest) with
      | nil => exact absurd htext ih
      | cons s list => simp [segments, hc, htext]

/-- After a quote the segments begin again. -/
theorem segments_join (hq : isQuote q = true) (text rest : List Char) :
    segments (text ++ q :: rest) = segments (text ++ [q]) ++ segments rest := by
  induction text with
  | nil => simp [segments, hq]
  | cons c text ih =>
    by_cases hc : isQuote c = true
    · simp [segments, hc, ih]
    · have hne := segments_ne_nil hq text []
      cases htext : segments (text ++ [q]) with
      | nil => exact absurd htext hne
      | cons s list => simp [segments, hc, ih, htext]

/-- The text in front of the first segment. -/
def addLead (lead : List Char) : List Segment → List Segment
  | [] => []
  | s :: rest => { s with text := lead ++ s.text } :: rest

theorem segments_lead {lead : List Char} (h : Quoteless lead) (text : List Char) :
    segments (lead ++ text) = addLead lead (segments text) := by
  induction lead with
  | nil =>
    rw [List.nil_append]
    cases segments text <;> rfl
  | cons c lead ih =>
    have hc : isQuote c = false := h c (.head _)
    cases htext : segments text with
    | nil => simp [segments, hc, ih h.tail, htext, addLead]
    | cons s list => simp [segments, hc, ih h.tail, htext, addLead]

theorem takeWhile_addLead (keep : Char → Bool) (c : Char) (list : List Segment) :
    (addLead [c] list).takeWhile (fun s => s.text.all keep) =
      if keep c then addLead [c] (list.takeWhile fun s => s.text.all keep) else [] := by
  cases list with
  | nil => simp [addLead]
  | cons s list =>
    by_cases hc : keep c = true
    · by_cases hs : s.text.all keep = true
      · simp only [addLead, List.takeWhile_cons, List.cons_append, List.nil_append, List.all_cons, hc, hs,
          Bool.and_self, if_true]
      · simp only [addLead, List.takeWhile_cons, List.cons_append, List.nil_append, List.all_cons, hc, hs,
          Bool.true_and, if_true, if_false, Bool.false_eq_true]
    · simp only [addLead, List.takeWhile_cons, List.cons_append, List.nil_append, List.all_cons, hc,
        Bool.false_and, if_false, Bool.false_eq_true]

/-- A text that is cut has the segments before the first one with the cut in it. -/
theorem segments_takeWhile {keep : Char → Bool} (hkeep : ∀ q, isQuote q = true → keep q = true)
    (text : List Char) :
    segments (text.takeWhile keep) = (segments text).takeWhile fun s => s.text.all keep := by
  induction text with
  | nil => rfl
  | cons c text ih =>
    by_cases hquote : isQuote c = true
    · simp only [List.takeWhile_cons, hkeep c hquote, if_true, segments, hquote, ih, List.all_nil]
    · have hsingle : Quoteless [c] := by
        intro d hd
        cases List.mem_singleton.mp hd
        exact eq_false_of_ne_true hquote
      have hcons : ∀ text, segments (c :: text) = addLead [c] (segments text) := segments_lead hsingle
      rw [hcons, takeWhile_addLead, ← ih]
      by_cases hc : keep c = true
      · rw [List.takeWhile_cons, if_pos hc, hcons, if_pos hc]
      · rw [List.takeWhile_cons, if_neg hc, if_neg hc]
        rfl

def Segment.erase (s : Segment) : Segment := { s with own := false }

theorem segments_erase (text : List Char) : (segments text).map Segment.erase = segments text := by
  induction text with
  | nil => rfl
  | cons c text ih =>
    by_cases hc : isQuote c = true
    · simp [segments, hc, ih, Segment.erase]
    · cases htext : segments text with
      | nil => simp [segments, hc, htext]
      | cons s list =>
        rw [htext] at ih
        obtain ⟨hs, hlist⟩ := List.cons.inj ih
        have hown : s.own = false := by rw [← hs]; rfl
        simp [segments, hc, htext, hlist, Segment.erase, hown]

/-- The marks are not read. -/
theorem readings_erase (list : List Segment) :
    (readings name (list.map Segment.erase)).map Prod.snd = (readings name list).map Prod.snd := by
  induction list using readings.induct name with
  | case1 s value rest hplace ih =>
    simp only [List.map_cons, readings, Segment.erase, hplace, if_true]
    simp only [ih]
  | case2 s value rest hplace ih =>
    simp only [List.map_cons, readings, Segment.erase, hplace]
    exact ih
  | case3 list hlist =>
    cases list with
    | nil => rfl
    | cons s list =>
      cases list with
      | nil => rfl
      | cons value rest => exact absurd rfl (hlist s value rest)

/-! ## A text in front -/

theorem strip_some {text rest : List Char} (h : strip name text = some rest) : text = name ++ rest := by
  induction name generalizing text with
  | nil =>
    cases h
    rfl
  | cons p ps ih =>
    cases text with
    | nil => cases h
    | cons c text =>
      simp only [strip] at h
      split at h
      · rename_i hc
        rw [hc, ih h]
        rfl
      · cases h

/-- The name is not at the end of a text if a colon comes before the equals sign. -/
theorem matchHead_colon (hname : ':' ∉ name) {before : List Char} (hbefore : '=' ∉ before)
    (text : List Char) : matchHead name (before ++ ':' :: text) = none := by
  unfold matchHead
  rw [strip_append hname]
  cases hstrip : strip name before with
  | none => rfl
  | some rest =>
    have hrest : '=' ∉ rest := fun h => hbefore (strip_some hstrip ▸ List.mem_append_right _ h)
    simp only [Option.map_some]
    rw [dropWhile_append_quote (by decide)]
    split
    · rename_i tail hdrop
      cases hspace : rest.dropWhile Text.isWhiteSpace with
      | nil =>
        rw [hspace] at hdrop
        cases hdrop
      | cons c more =>
        rw [hspace] at hdrop
        cases hdrop
        have hmem : '=' ∈ rest.dropWhile Text.isWhiteSpace := hspace ▸ .head _
        exact absurd ((List.dropWhile_sublist _).subset hmem) hrest
    · rfl

theorem asks_append {word : List Char} (hword : ∀ c ∈ word, Text.isWhiteSpace c = false)
    (text : List Char) : asks name (word ++ text) = asks name text := by
  induction word with
  | nil => rfl
  | cons c word ih =>
    have hc := hword c (.head _)
    have hrest := ih fun d hd => hword d (.tail _ hd)
    simp [asks, hc, hrest]

theorem asks_lead (hname : ':' ∉ name) {before word : List Char} (hbefore : '=' ∉ before)
    (hword : ∀ c ∈ word, Text.isWhiteSpace c = false) (text : List Char) :
    asks name (before ++ ':' :: (word ++ text)) = asks name text := by
  induction before with
  | nil =>
    have hcolon : Text.isWhiteSpace ':' = false := by decide
    simp [asks, hcolon, asks_append hword]
  | cons c before ih =>
    have htail : '=' ∉ before := fun h => hbefore (.tail _ h)
    have hnone := matchHead_colon hname htail (word ++ text)
    simp [asks, hnone, ih htail]

theorem readings_lead {lead : List Char} (h : ∀ text, asks name (lead ++ text) = asks name text)
    (list : List Segment) :
    (readings name (addLead lead list)).map Prod.snd = (readings name list).map Prod.snd := by
  cases list with
  | nil => rfl
  | cons s list =>
    cases list with
    | nil => rfl
    | cons value rest =>
      simp only [addLead, readings, h]

/-! ## No reading, and one -/

/-- The segments are not a name and its value. -/
abbrev Apart (name : List Char) (s value : Segment) : Prop :=
  ¬ (asks name s.text = true ∧ s.quote = value.quote)

/-- No two segments that follow each other are a name and its value. -/
def Free (name : List Char) (list : List Segment) : Prop := list.IsChain (Apart name)

instance (name : List Char) (list : List Segment) : Decidable (Free name list) :=
  inferInstanceAs (Decidable (list.IsChain (Apart name)))

/-- The segments `s` and `value` are a name and its value, and none before or after them are. -/
structure Sole (name : List Char) (list : List Segment) (s value : Segment) : Prop where
  asked : asks name s.text = true
  quoted : s.quote = value.quote
  split : ∃ before after, list = before ++ s :: value :: after ∧ Free name (before ++ [s]) ∧
    Free name after

theorem readings_cons_of_apart {s value : Segment} (h : Apart name s value) (rest : List Segment) :
    readings name (s :: value :: rest) = readings name (value :: rest) := by
  have hif : (asks name s.text && decide (s.quote = value.quote)) = false := by simpa using h
  simp [readings, hif]

theorem readings_eq_nil {list : List Segment} : readings name list = [] ↔ Free name list := by
  induction list with
  | nil => simp [readings, Free]
  | cons s list ih =>
    cases list with
    | nil => simp [readings, Free]
    | cons value rest =>
      unfold Free at ih ⊢
      rw [List.isChain_cons_cons, ← ih]
      by_cases h : asks name s.text = true ∧ s.quote = value.quote
      · simp [readings, h.1, h.2]
      · rw [readings_cons_of_apart h]
        exact ⟨fun hnil => ⟨h, hnil⟩, fun hfree => hfree.2⟩

theorem readings_of_split {s value : Segment} (hasked : asks name s.text = true)
    (hquoted : s.quote = value.quote) {before after : List Segment}
    (hbefore : Free name (before ++ [s])) (hafter : Free name after) :
    readings name (before ++ s :: value :: after) = [(s.own, value.text)] := by
  induction before with
  | nil => simp [readings, hasked, hquoted, readings_eq_nil.mpr hafter]
  | cons b before ih =>
    unfold Free at hbefore
    cases before with
    | nil =>
      have hapart := (List.isChain_cons_cons.mp hbefore).1
      simp only [List.cons_append, List.nil_append] at ih ⊢
      rw [readings_cons_of_apart hapart]
      exact ih (List.isChain_singleton s)
    | cons b' before =>
      obtain ⟨hapart, hrest⟩ := List.isChain_cons_cons.mp hbefore
      simp only [List.cons_append] at ih ⊢
      rw [readings_cons_of_apart hapart]
      exact ih hrest

/-- There is one reading if and only if one name and its value stand alone. -/
theorem readings_eq_singleton {list : List Segment} {own : Bool} {text : List Char} :
    readings name list = [(own, text)] ↔
      ∃ s value, Sole name list s value ∧ s.own = own ∧ value.text = text := by
  constructor
  · intro h
    induction list with
    | nil => simp [readings] at h
    | cons s list ih =>
      cases list with
      | nil => simp [readings] at h
      | cons value rest =>
        by_cases hplace : asks name s.text = true ∧ s.quote = value.quote
        · simp only [readings, hplace.1, hplace.2, decide_true, Bool.and_self, if_true,
            List.cons.injEq, Prod.mk.injEq] at h
          obtain ⟨⟨hown, htext⟩, hrest⟩ := h
          refine ⟨s, value, ⟨hplace.1, hplace.2, [], rest, rfl, ?_, ?_⟩, hown, htext⟩
          · exact List.isChain_singleton s
          · exact readings_eq_nil.mp hrest
        · rw [readings_cons_of_apart hplace] at h
          obtain ⟨s', value', hsole, hown, htext⟩ := ih h
          obtain ⟨before, after, hlist, hbefore, hafter⟩ := hsole.split
          refine ⟨s', value', ⟨hsole.asked, hsole.quoted, s :: before, after, ?_, ?_, hafter⟩,
            hown, htext⟩
          · rw [hlist]
            rfl
          · unfold Free at hbefore ⊢
            cases before with
            | nil =>
              cases hlist
              exact List.isChain_cons_cons.mpr ⟨hplace, List.isChain_singleton value⟩
            | cons b before =>
              cases hlist
              exact List.isChain_cons_cons.mpr ⟨hplace, hbefore⟩
  · rintro ⟨s, value, hsole, rfl, rfl⟩
    obtain ⟨before, after, rfl, hbefore, hafter⟩ := hsole.split
    exact readings_of_split hsole.asked hsole.quoted hbefore hafter

end AuthMe.Federation.Envelope
