import AuthMe.Federation.EnvelopeRoot

/-!
# When the envelope reads a document as a parser does

The four attributes that `responseEnvelope` takes from a document are compared with the ones that an
XML parser reports for its root. They are the same if and only if the document is `Readable`.
-/

namespace AuthMe.Federation.Envelope

open Xml

/-! ## The segments of a start tag -/

/-- The head of the attribute with that name is marked. -/
def attributeSegments (name : String) (a : Attribute) : List Segment :=
  { text := a.head, quote := a.quote.char, own := a.name = name.toList } ::
    segments (a.raw ++ [a.quote.char])

/-- The segments of the start tag up to its first `>`. -/
def tagSegments (name : String) (d : Document) : List Segment :=
  (d.attributes.flatMap (attributeSegments name)).takeWhile fun s => s.text.all (· ≠ '>')

/-- The start tag is read, for one name, as a parser reads it. -/
inductive Legible (d : Document) (name : String) : Prop
  /-- There is no such attribute, and nothing that looks like one. -/
  | absent (absent : d.attribute? name = none) (free : Free name.toList (tagSegments name d))
  /-- What stands for the attribute is the attribute alone, and it is reported as it is written. -/
  | present (a : Attribute) (found : d.attribute? name = some a) (plain : a.Plain)
      (sole : Sole name.toList (tagSegments name d) { text := a.head, quote := a.quote.char, own := true }
        { text := a.raw, quote := a.quote.char })
  /-- What stands for the attribute is another text, which happens to be the same. -/
  | chance (value : String) (reported : d.reported name = some value) (s v : Segment)
      (sole : Sole name.toList (tagSegments name d) s v) (other : s.own = false)
      (same : v.text = value.toList)

/-- The document is read as a parser reads it. -/
structure Readable (d : Document) : Prop where
  allowed : prohibited d.text = false
  header : header d.prolog = true
  lead : (lead d.pre).isSome = true
  legible : ∀ name ∈ names, Legible d name

section

variable {d : Document} {name : String}

/-! ## Quotes -/

theorem isQuote_quote (quote : Quote) : isQuote quote.char = true := by
  cases quote <;> decide

theorem isQuote_cases {c : Char} (h : isQuote c = true) : c = '"' ∨ c = '\'' := by
  simpa [isQuote] using h

theorem isQuote_ne_close (c : Char) (h : isQuote c = true) : decide (c ≠ '>') = true := by
  rcases isQuote_cases h with rfl | rfl <;> decide

theorem quoteless_head {a : Attribute} (h : a.WellFormed) : Quoteless a.head := by
  intro c hc
  by_contra hquote
  rcases isQuote_cases (by simpa using hquote) with rfl | rfl
  · exact h.not_mem_head (by decide) (by decide) (by decide) hc
  · exact h.not_mem_head (by decide) (by decide) (by decide) hc

theorem quoteless_of_isSpace {text : List Char} (h : ∀ c ∈ text, isSpace c = true) : Quoteless text := by
  intro c hc
  by_contra hquote
  have hspace := h c hc
  rcases isQuote_cases (by simpa using hquote) with rfl | rfl <;> exact absurd hspace (by decide)

theorem segments_attribute (name : String) {a : Attribute} (h : a.WellFormed) (rest : List Char) :
    segments (a.text ++ rest) = (attributeSegments name a).map Segment.erase ++ segments rest := by
  have hquote := isQuote_quote a.quote
  have htext : a.text ++ rest = a.head ++ a.quote.char :: (a.raw ++ a.quote.char :: rest) := by
    simp [Attribute.text]
  rw [htext, segments_append (quoteless_head h) hquote, segments_join hquote]
  simp only [attributeSegments, List.map_cons, segments_erase, List.cons_append]
  rfl

theorem segments_attributes (name : String) {list : List Attribute} (h : ∀ a ∈ list, a.WellFormed)
    (rest : List Char) :
    segments (list.flatMap Attribute.text ++ rest) =
      (list.flatMap (attributeSegments name)).map Segment.erase ++ segments rest := by
  induction list with
  | nil => rfl
  | cons a list ih =>
    have hlist := ih fun b hb => h b (.tail _ hb)
    simp only [List.flatMap_cons, List.map_append, List.append_assoc]
    rw [segments_attribute name (h a (.head _)), hlist]

theorem takeWhile_append_nil {α : Type} {p : α → Bool} {rest : List α} (h : rest.takeWhile p = [])
    (list : List α) : (list ++ rest).takeWhile p = list.takeWhile p := by
  induction list with
  | nil => exact h
  | cons a list ih => simp [List.takeWhile_cons, ih]

/-- Nothing after the last attribute is between quotes before the start tag ends. -/
theorem segments_close (hd : d.WellFormed) :
    (segments (d.close ++ '>' :: d.rest)).takeWhile (fun s => s.text.all (· ≠ '>')) = [] := by
  have hclose : ∀ c ∈ d.close, isSpace c = true ∨ c = '/' := by
    intro c hc
    rcases List.mem_append.mp hc with hc | hc
    · exact .inl (hd.space c hc)
    · cases hempty : d.empty <;> simp_all
  have hcut : (d.close ++ '>' :: d.rest).takeWhile (· ≠ '>') = d.close := by
    have hall : ∀ c ∈ d.close, decide (c ≠ '>') = true := by
      intro c hc
      rcases hclose c hc with hspace | rfl
      · apply decide_eq_true
        rintro rfl
        exact absurd hspace (by decide)
      · decide
    simpa using takeWhile_append_all hall ('>' :: d.rest)
  have hquoteless : Quoteless d.close := by
    intro c hc
    rcases hclose c hc with hspace | rfl
    · have hsingle : ∀ d ∈ [c], isSpace d = true := by simpa using hspace
      exact quoteless_of_isSpace hsingle c (.head _)
    · decide
  rw [← segments_takeWhile isQuote_ne_close, hcut, segments_of_quoteless hquoteless]

theorem segments_tag (hd : d.WellFormed) (name : String) :
    segments (d.tag.takeWhile (· ≠ '>')) = (tagSegments name d).map Segment.erase := by
  rw [segments_takeWhile isQuote_ne_close, Document.tag, segments_attributes name hd.attributes,
    takeWhile_append_nil (segments_close hd), List.takeWhile_map]
  rfl

/-! ## The marked segment -/

theorem segments_own {text : List Char} {s : Segment} (h : s ∈ segments text) : s.own = false := by
  rw [← segments_erase] at h
  obtain ⟨s', -, rfl⟩ := List.mem_map.mp h
  rfl

theorem infix_of_not_own {list rest : List Segment} (h : ∀ s ∈ list, s.own = false) {s v : Segment}
    (hown : s.own = true) (hin : [s, v] <:+: list ++ rest) : [s, v] <:+: rest := by
  induction list with
  | nil => exact hin
  | cons t list ih =>
    rcases List.infix_cons_iff.mp hin with hprefix | hin
    · obtain ⟨after, hafter⟩ := hprefix
      have hfalse := h t (.head _)
      rw [← (List.cons.inj hafter).1, hown] at hfalse
      cases hfalse
    · exact ih (fun u hu => h u (.tail _ hu)) hin

/-- What follows the first segment of an attribute ends at the quote of the attribute only if it is
the value. -/
theorem value_segment {a : Attribute} (h : a.WellFormed) {v : Segment} {rest after : List Segment}
    (hfirst : segments (a.raw ++ [a.quote.char]) ++ rest = v :: after) (hv : v.quote = a.quote.char) :
    v = { text := a.raw, quote := a.quote.char } := by
  have hquote := isQuote_quote a.quote
  rcases quoteless_or a.raw with hraw | ⟨before, q, more, hraw, hbefore, hq⟩
  · rw [segments_append hraw hquote] at hfirst
    exact (List.cons.inj hfirst).1.symm
  · rw [hraw, List.append_assoc, List.cons_append, segments_append hbefore hq] at hfirst
    have hfound := (List.cons.inj hfirst).1
    have hmem : a.quote.char ∈ a.raw := by
      rw [← hv, ← hfound, hraw]
      exact List.mem_append_right _ (.head _)
    exact absurd hmem h.quote_not_mem

theorem own_attributes {list : List Attribute} (h : ∀ a ∈ list, a.WellFormed) {s v : Segment}
    (hin : [s, v] <:+: list.flatMap (attributeSegments name)) (hown : s.own = true)
    (hquoted : s.quote = v.quote) : ∃ a ∈ list, a.name = name.toList ∧
      s = { text := a.head, quote := a.quote.char, own := true } ∧
      v = { text := a.raw, quote := a.quote.char } := by
  induction list with
  | nil => simp at hin
  | cons a list ih =>
    rw [List.flatMap_cons, attributeSegments, List.cons_append] at hin
    rcases List.infix_cons_iff.mp hin with ⟨after, hafter⟩ | hin
    · obtain ⟨rfl, hrest⟩ := List.cons.inj hafter
      have hv := value_segment (h a (.head _)) hrest.symm hquoted.symm
      have hname : a.name = name.toList := of_decide_eq_true hown
      refine ⟨a, .head _, hname, ?_, hv⟩
      simp [hname]
    · have hlater := infix_of_not_own (fun t ht => segments_own ht) hown hin
      obtain ⟨b, hb, hfound⟩ := ih (fun b hb => h b (.tail _ hb)) hlater
      exact ⟨b, .tail _ hb, hfound⟩

/-- The marked segment and what follows it are the attribute and its value. -/
theorem own_attribute (hd : d.WellFormed) {s v : Segment} (h : Sole name.toList (tagSegments name d) s v)
    (hown : s.own = true) : ∃ a, d.attribute? name = some a ∧
      s = { text := a.head, quote := a.quote.char, own := true } ∧
      v = { text := a.raw, quote := a.quote.char } := by
  obtain ⟨before, after, hsplit, -, -⟩ := h.split
  have hin : [s, v] <:+: tagSegments name d := ⟨before, after, by simp [hsplit]⟩
  have hall := hin.trans (List.takeWhile_prefix _).isInfix
  obtain ⟨a, ha, hname, hs, hv⟩ := own_attributes hd.attributes hall hown h.quoted
  exact ⟨a, Document.attribute?_of_mem hd.unique ha hname, hs, hv⟩

/-! ## One attribute -/

theorem reported_toList : (d.reported name).map String.toList =
    (d.attribute? name).map fun a => normalizeValue a.value := by
  unfold Document.reported
  cases d.attribute? name with
  | none => rfl
  | some a => simp

/-- The readings of the start tag are what the parser reports if and only if it is legible. -/
theorem legible_iff (hd : d.WellFormed) :
    (readings name.toList (tagSegments name d)).map Prod.snd =
      ((d.reported name).map String.toList).toList ↔ Legible d name := by
  constructor
  · intro h
    cases hfound : d.attribute? name with
    | none =>
      rw [reported_toList, hfound] at h
      exact .absent hfound (readings_eq_nil.mp (List.map_eq_nil_iff.mp h))
    | some a =>
      rw [reported_toList, hfound] at h
      obtain ⟨⟨own, text⟩, hsingle, htext⟩ := List.map_eq_singleton_iff.mp h
      obtain ⟨s, v, hsole, hown, hv⟩ := readings_eq_singleton.mp hsingle
      have hvalue : v.text = normalizeValue a.value := hv.trans htext
      cases own with
      | true =>
        obtain ⟨b, hb, rfl, rfl⟩ := own_attribute hd hsole hown
        rw [hfound] at hb
        cases hb
        exact .present a hfound (a.normalizeValue_eq_raw_iff.mp hvalue.symm) hsole
      | false =>
        refine .chance (String.ofList (normalizeValue a.value)) ?_ s v hsole hown ?_
        · unfold Document.reported
          rw [hfound]
          rfl
        · rw [hvalue, String.toList_ofList]
  · intro h
    cases h with
    | absent hfound hfree =>
      rw [reported_toList, hfound, readings_eq_nil.mpr hfree]
      rfl
    | present a hfound hplain hsole =>
      rw [reported_toList, hfound, readings_eq_singleton.mpr ⟨_, _, hsole, rfl, rfl⟩]
      simp [a.normalizeValue_eq_raw_iff.mpr hplain]
    | chance value hreported s v hsole hother hsame =>
      rw [hreported, readings_eq_singleton.mpr ⟨s, v, hsole, hother, hsame⟩]
      rfl

theorem extractAttribute_eq_ok {text : List Char} {value : Option String} :
    extractAttribute text name = .ok value ↔
      matchAll name.toList text = (value.map String.toList).toList := by
  unfold extractAttribute
  rcases hmatches : matchAll name.toList text with _ | ⟨first, _ | ⟨second, rest⟩⟩
  · cases value <;> simp
  · cases value with
    | none => simp
    | some value =>
      simp only [Except.ok.injEq, Option.some.injEq, Option.map_some, Option.toList_some, List.cons.injEq,
        and_true]
      constructor
      · rintro rfl
        exact (String.toList_ofList).symm
      · rintro rfl
        exact String.ofList_toList
  · cases value <;> simp

/-! ## The group of the root -/

theorem stops_tag (hd : d.WellFormed) : Stops d.tag ∧ '>' ∈ d.tag := by
  constructor
  · unfold Document.tag Document.close
    cases hattributes : d.attributes with
    | nil =>
      cases hspace : d.space with
      | nil =>
        cases d.empty with
        | true => exact ⟨'/', '>' :: d.rest, rfl, .inr (.inl rfl)⟩
        | false => exact ⟨'>', d.rest, rfl, .inr (.inr rfl)⟩
      | cons c space => exact ⟨c, _, rfl, .inl (hd.space c (hspace ▸ .head _))⟩
    | cons a rest =>
      obtain ⟨hne, hspace⟩ := (hd.attributes a (hattributes ▸ .head _)).space
      obtain ⟨c, space, hcons⟩ := List.exists_cons_of_ne_nil hne
      have hfirst : ∀ text, ∃ more, (a :: rest).flatMap Attribute.text ++ text = c :: more := by
        intro text
        simp only [List.flatMap_cons, Attribute.text, Attribute.head, hcons, List.cons_append]
        exact ⟨_, rfl⟩
      obtain ⟨more, hmore⟩ := hfirst _
      exact ⟨c, more, hmore, .inl (hspace c (hcons ▸ .head _))⟩
  · simp [Document.tag]

theorem responseName_cons {pre : Option (List Char)} (hpre : ∀ p, pre = some p → NCName p) :
    ∃ c rest, responseName pre = c :: rest ∧ c ≠ '?' := by
  cases pre with
  | none => exact ⟨'R', "esponse".toList, rfl, by decide⟩
  | some pre =>
    obtain ⟨c, rest, rfl, hc⟩ := (hpre pre rfl).start
    refine ⟨c, _, rfl, ?_⟩
    rintro rfl
    exact absurd hc (by decide)

theorem root_document (hd : d.WellFormed) (hroot : d.localName = "Response".toList) :
    root d.text = if header d.prolog then (lead d.pre).map (· ++ d.tag.takeWhile (· ≠ '>')) else none := by
  have hname : d.name = responseName d.pre := by
    unfold Document.name
    rw [hroot]
    cases d.pre <;> rfl
  have hmark : ∀ text, root ((if d.byteOrderMark then [Char.ofNat 0xFEFF] else []) ++ text) = root text := by
    intro text
    cases d.byteOrderMark with
    | true => exact root_space (by decide) text
    | false => rfl
  obtain ⟨hstops, hclosed⟩ := stops_tag hd
  obtain ⟨c, rest, hcons, hc⟩ := responseName_cons hd.pre
  have hfound := root_eq hd.prolog hc (rest ++ d.tag)
  rw [← List.cons_append, ← hcons, responseTag_eq hd.pre hstops hclosed] at hfound
  rw [Document.text, hmark, hname, hfound]

/-! ## The readings of the group -/

theorem quoteless_name (hname : name ∈ names) : Quoteless name.toList := by
  have hall : ∀ name ∈ names, name.toList.all (!isQuote ·) = true := List.all_eq_true.mp (by decide)
  intro c hc
  simpa using List.all_eq_true.mp (hall name hname) c hc

/-- A name does not begin with a character outside `\w`. -/
theorem strip_name (hname : name ∈ names) {text : List Char}
    (htext : ∀ c rest, text = c :: rest → isWord c = false) : strip name.toList text = none := by
  have hfirst : ∀ name ∈ names, ∃ c rest, name.toList = c :: rest ∧ isWord c = true := by
    intro name hname
    simp only [names, List.mem_cons, List.not_mem_nil, or_false] at hname
    rcases hname with rfl | rfl | rfl | rfl <;> exact ⟨_, _, rfl, by decide⟩
  obtain ⟨c, rest, hcons, hc⟩ := hfirst name hname
  rw [hcons]
  cases text with
  | nil => rfl
  | cons d text =>
    have hne : c ≠ d := by
      rintro rfl
      rw [htext c text rfl] at hc
      cases hc
    simp [strip, hne]

/-- What the group has before the attributes is no name and has no quotes. -/
theorem lead_spec {pre : Option (List Char)} (hpre : ∀ p, pre = some p → NCName p) {front : List Char}
    (h : lead pre = some front) (hname : name ∈ names) :
    Quoteless front ∧ (∀ text, asks name.toList (front ++ text) = asks name.toList text) ∧
      (front = [] ∨ ∃ c rest, front = c :: rest ∧ isWord c = false) := by
  have hempty : Quoteless [] ∧ (∀ text, asks name.toList ([] ++ text) = asks name.toList text) ∧
      (([] : List Char) = [] ∨ ∃ c rest, ([] : List Char) = c :: rest ∧ isWord c = false) :=
    ⟨(fun c hc => by cases hc), (fun text => rfl), .inl rfl⟩
  cases pre with
  | none =>
    cases h
    exact hempty
  | some pre =>
    simp only [lead] at h
    split at h
    · cases h
      exact hempty
    · split at h
      · rename_i c rest hstrip
        split at h
        · cases h
        · rename_i hc
          cases h
          have hchars : ∀ d ∈ c :: rest, isNameChar d = true := by
            intro d hd
            have hmem : d ∈ pre := strip_some hstrip ▸ List.mem_append_right _ hd
            exact ((hpre pre rfl).chars d hmem).1
          have hequals : '=' ∉ c :: rest := fun hmem => absurd (hchars '=' hmem) (by decide)
          have hcolon : ∀ name ∈ names, ':' ∉ name.toList := by decide
          have hspace : ∀ d ∈ "Response".toList, Text.isWhiteSpace d = false := by
            intro d hd
            have hall : "Response".toList.all (!Text.isWhiteSpace ·) = true := by decide
            simpa only [Bool.not_eq_true'] using List.all_eq_true.mp hall d hd
          have hfixed : ∀ d ∈ ':' :: "Response".toList, (!isQuote d) = true :=
            List.all_eq_true.mp (by decide)
          refine ⟨?_, ?_, .inr ⟨c, _, rfl, eq_false_of_ne_true hc⟩⟩
          · intro d hd
            rcases List.mem_append.mp hd with hd | hd
            · by_contra hquote
              have htrue := hchars d hd
              rcases isQuote_cases (by simpa using hquote) with rfl | rfl <;> exact absurd htrue (by decide)
            · simpa using hfixed d hd
          · intro text
            have hasks := asks_lead (hcolon name hname) hequals hspace text
            simpa only [List.append_assoc, List.cons_append] using hasks
      · cases h

theorem matchAll_tag (hd : d.WellFormed) {front : List Char} (hlead : lead d.pre = some front)
    (hname : name ∈ names) : matchAll name.toList (front ++ d.tag.takeWhile (· ≠ '>')) =
      (readings name.toList (tagSegments name d)).map Prod.snd := by
  obtain ⟨hquoteless, hasks, hfront⟩ := lead_spec hd.pre hlead hname
  have hstart : strip name.toList (front ++ d.tag.takeWhile (· ≠ '>')) = none := by
    apply strip_name hname
    intro c rest hcons
    rcases hfront with rfl | ⟨c', rest', rfl, hc'⟩
    · obtain ⟨⟨c', rest', htag, hc'⟩, -⟩ := stops_tag hd
      have hword := (not_word_of_stops hc').1
      simp only [Bool.or_eq_false_iff] at hword
      rw [htag, List.nil_append, List.takeWhile_cons] at hcons
      split at hcons
      · cases hcons
        exact hword.1.1
      · cases hcons
    · cases hcons
      exact hc'
  rw [matchAll_eq_readings (quoteless_name hname) hstart, segments_lead hquoteless, readings_lead hasks,
    segments_tag hd name, readings_erase]

/-! ## The envelope -/

theorem mapM_eq_ok {α β ε : Type} {f : α → Except ε β} {g : α → β} {list : List α} :
    list.mapM f = .ok (list.map g) ↔ ∀ a ∈ list, f a = .ok (g a) := by
  induction list with
  | nil => simp [pure, Except.pure]
  | cons a list ih =>
    rw [List.mapM_cons, List.map_cons, List.forall_mem_cons, ← ih]
    cases hfirst : f a with
    | error e => simp [bind, Except.bind]
    | ok b =>
      cases hrest : list.mapM f with
      | error e => simp [bind, Except.bind]
      | ok bs => simp [bind, Except.bind, pure, Except.pure]

end

/-! ## Two documents -/

/-- An attribute whose value is written without references. -/
def written (name value : String) : Attribute where
  space := [' ']
  name := name.toList
  before := []
  after := []
  quote := .double
  value := value.toList.map .char

theorem written_wellFormed {name value : String}
    (hname : name.toList ≠ [] ∧ name.toList.all isNameChar = true)
    (hvalue : value.toList.all (fun c => c ≠ '"' && c ≠ '<' && c ≠ '&') = true) :
    (written name value).WellFormed where
  space := by simp [written, isSpace]
  name := ⟨hname.1, List.all_eq_true.mp hname.2⟩
  before := by simp [written]
  after := by simp [written]
  value := by
    intro p hp
    obtain ⟨c, hc, rfl⟩ := List.mem_map.mp hp
    have hchar := List.all_eq_true.mp hvalue c hc
    simp only [Bool.and_eq_true, decide_eq_true_eq, and_assoc] at hchar
    constructor
    · rintro d ⟨⟩
      exact hchar
    · rintro digits ⟨⟩
    · rintro digits ⟨⟩

/-- A document with nothing before its root. -/
def responseWith (attributes : List Attribute) : Document where
  byteOrderMark := false
  prolog := []
  pre := none
  localName := "Response".toList
  attributes := attributes
  space := []
  empty := true
  rest := []

theorem responseWith_wellFormed {attributes : List Attribute} (h : ∀ a ∈ attributes, a.WellFormed)
    (hunique : (attributes.map Attribute.name).Nodup) : (responseWith attributes).WellFormed where
  prolog := by simp [responseWith]
  pre := by simp [responseWith]
  localName := by
    have hchars : ∀ c ∈ "Response".toList, (isNameChar c && c ≠ ':') = true :=
      List.all_eq_true.mp (by decide)
    refine ⟨⟨'R', "esponse".toList, rfl, by decide⟩, fun c hc => ?_⟩
    simpa using hchars c hc
  attributes := h
  unique := hunique
  space := by simp [responseWith]

def ordinary : Document :=
  responseWith [written "ID" "_1", written "Version" "2.0", written "Destination" "https://sp/acs?i=1",
    written "InResponseTo" "_r"]

theorem ordinary_wellFormed : ordinary.WellFormed := by
  apply responseWith_wellFormed
  · simp only [List.forall_mem_cons]
    refine ⟨?_, ?_, ?_, ?_, fun a ha => by cases ha⟩ <;> exact written_wellFormed (by decide) (by decide)
  · decide

theorem ordinary_read : envelopeAttributes ordinary.text = .ok (names.map ordinary.reported) := by
  decide +kernel

/-- The value of another attribute holds what looks like the missing one. -/
def decoy : Document :=
  responseWith [written "Consent" "for InResponseTo='_r'", written "ID" "_1", written "Version" "2.0",
    written "Destination" "https://sp/acs"]

end AuthMe.Federation.Envelope
