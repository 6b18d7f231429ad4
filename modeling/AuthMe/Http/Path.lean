import AuthMe.Basic

/-!
# Paths and route patterns

A path is read as the list of its segments, the texts between the slashes. A pattern is a
list of parts, each a literal or a parameter that stands for one segment that is not
empty. Literals are compared after a folding of their letters, and different readers of
one path fold differently: Express folds the ASCII letters, a regular expression with the
flags `iu` also folds the two other characters that Unicode folds into ASCII
(`foldUnicode`).

`matchParts_fold` goes from one folding to the other. `matchParts_text` is about two
patterns: what a pattern says of the paths of another one does not depend on the path, if
the two patterns agree in the sense of `decides`.
-/

namespace Http

open AuthMe (asciiLower)

/-! ## Segments -/

/-- Puts a character in front of the first segment. -/
def consChar (c : Char) : List (List Char) → List (List Char)
  | [] => [[c]]
  | s :: ss => (c :: s) :: ss

/-- The texts between the slashes. -/
def segments : List Char → List (List Char)
  | [] => [[]]
  | c :: cs => if c = '/' then [] :: segments cs else consChar c (segments cs)

theorem segments_slash (cs : List Char) : segments ('/' :: cs) = [] :: segments cs := rfl

theorem segments_cons_of_ne {c : Char} (hc : c ≠ '/') (cs : List Char) :
    segments (c :: cs) = consChar c (segments cs) := by
  rw [segments, if_neg hc]

theorem segments_ne_nil (p : List Char) : segments p ≠ [] := by
  cases p with
  | nil => simp [segments]
  | cons c cs =>
    unfold segments
    split
    · simp
    · cases segments cs <;> simp [consChar]

theorem consChar_append (c : Char) {ss : List (List Char)} (hss : ss ≠ []) (tt : List (List Char)) :
    consChar c (ss ++ tt) = consChar c ss ++ tt := by
  cases ss with
  | nil => exact absurd rfl hss
  | cons s ss => rfl

theorem segments_append_slash (p q : List Char) :
    segments (p ++ '/' :: q) = segments p ++ segments q := by
  induction p with
  | nil => rfl
  | cons c cs ih =>
    rw [List.cons_append]
    by_cases hc : c = '/'
    · subst hc
      rw [segments_slash, segments_slash, ih, List.cons_append]
    · rw [segments_cons_of_ne hc, segments_cons_of_ne hc, ih,
        consChar_append c (segments_ne_nil cs)]

theorem segments_append_of_ne {c : Char} (hc : c ≠ '/') (p : List Char) :
    ∃ ss s, segments (p ++ [c]) = ss ++ [s ++ [c]] := by
  induction p with
  | nil => exact ⟨[], [], by rw [List.nil_append, segments_cons_of_ne hc]; rfl⟩
  | cons d ds ih =>
    obtain ⟨ss, s, h⟩ := ih
    rw [List.cons_append]
    by_cases hd : d = '/'
    · subst hd
      exact ⟨[] :: ss, s, by rw [segments_slash, h, List.cons_append]⟩
    · rw [segments_cons_of_ne hd, h]
      cases ss with
      | nil => exact ⟨[], d :: s, rfl⟩
      | cons x ss => exact ⟨(d :: x) :: ss, s, rfl⟩

/-- `replace(/\/+$/u, '')`. -/
def dropTrailingSlashes (p : List Char) : List Char :=
  (p.reverse.dropWhile (· = '/')).reverse

theorem dropTrailingSlashes_append_slash (p : List Char) :
    dropTrailingSlashes (p ++ ['/']) = dropTrailingSlashes p := by
  simp [dropTrailingSlashes]

/-- A path whose last segment is not empty does not end with a slash. -/
theorem dropTrailingSlashes_of_ne {p : List Char} {ss : List (List Char)} {s : List Char}
    (h : segments p = ss ++ [s]) (hs : s ≠ []) : dropTrailingSlashes p = p := by
  rcases p.eq_nil_or_concat with rfl | ⟨q, c, rfl⟩
  · rfl
  · have hc : c ≠ '/' := by
      rintro rfl
      rw [List.concat_eq_append, segments_append_slash] at h
      have hlast := List.append_inj_right' h rfl
      simp only [segments, List.cons.injEq, and_true] at hlast
      exact hs hlast.symm
    simp [dropTrailingSlashes, hc]

/-- An empty last segment is one slash at the end of the path. -/
theorem eq_append_slash {p : List Char} {ss : List (List Char)} (h : segments p = ss ++ [[]])
    (hss : ss ≠ []) : ∃ q, p = q ++ ['/'] ∧ segments q = ss := by
  rcases p.eq_nil_or_concat with rfl | ⟨q, c, rfl⟩
  · have hsplit : [] ++ [[]] = ss ++ [[]] := h
    have hnil := List.append_inj_left' hsplit rfl
    exact absurd hnil.symm hss
  · rw [List.concat_eq_append] at h
    by_cases hc : c = '/'
    · subst hc
      rw [segments_append_slash] at h
      exact ⟨q, List.concat_eq_append, List.append_inj_left' h rfl⟩
    · obtain ⟨tt, t, ht⟩ := segments_append_of_ne hc q
      have hlast := List.append_inj_right' (ht.symm.trans h) rfl
      simp at hlast

/-! ## Patterns -/

inductive Part
  | literal (text : List Char)
  | param (name : List Char)
  deriving DecidableEq

/-- The part that a segment of a pattern's text stands for. -/
def Part.parse : List Char → Part
  | ':' :: name => .param name
  | text => .literal text

/-- The parts of a pattern, such as `/v1/realms/:realm`. -/
def pattern (text : String) : List Part := (segments text.toList).map Part.parse

def Part.matches (fold : Char → Char) : Part → List Char → Bool
  | .literal text, s => s.map fold = text.map fold
  | .param _, s => s ≠ []

/-- The segments match the parts one by one. -/
def matchParts (fold : Char → Char) : List Part → List (List Char) → Bool
  | [], [] => true
  | p :: ps, s :: ss => p.matches fold s && matchParts fold ps ss
  | _, _ => false

/-- The segments that stand where the parameters are, with their names. -/
def captures : List Part → List (List Char) → List (List Char × List Char)
  | .param name :: ps, s :: ss => (name, s) :: captures ps ss
  | .literal _ :: ps, _ :: ss => captures ps ss
  | _, _ => []

theorem length_of_matchParts {fold : Char → Char} {ps : List Part} {ss : List (List Char)}
    (h : matchParts fold ps ss = true) : ps.length = ss.length := by
  induction ps generalizing ss with
  | nil =>
    cases ss with
    | nil => rfl
    | cons s ss => cases h
  | cons p ps ih =>
    cases ss with
    | nil => cases h
    | cons s ss =>
      simp only [matchParts, Bool.and_eq_true] at h
      rw [List.length_cons, List.length_cons, ih h.2]

theorem matchParts_take {fold : Char → Char} {ps : List Part} {ss : List (List Char)}
    (h : matchParts fold ps ss = true) (n : Nat) :
    matchParts fold (ps.take n) (ss.take n) = true := by
  induction n generalizing ps ss with
  | zero => simp [matchParts]
  | succ n ih =>
    cases ps with
    | nil =>
      cases ss with
      | nil => rfl
      | cons s ss => cases h
    | cons p ps =>
      cases ss with
      | nil => cases h
      | cons s ss =>
        simp only [matchParts, Bool.and_eq_true] at h
        simp only [List.take_succ_cons, matchParts, Bool.and_eq_true]
        exact ⟨h.1, ih h.2⟩

/-! ## Two foldings -/

/-- The two characters outside ASCII that Unicode folds into ASCII: the long s and the
Kelvin sign. -/
def unicodeSpecial (c : Char) : Char :=
  if c = '\u017f' then 's' else if c = '\u212a' then 'k' else c

/-- How a regular expression with the flags `iu` compares with an ASCII letter. -/
def foldUnicode (c : Char) : Char := asciiLower (unicodeSpecial c)

/-- The folding leaves the literals as they are. -/
def canonical (fold : Char → Char) (ps : List Part) : Bool :=
  ps.all fun p =>
    match p with
    | .literal text => text.map fold = text
    | .param _ => true

theorem asciiLower_eq_self {d : Char} (h : 128 ≤ (asciiLower d).toNat) : asciiLower d = d := by
  unfold asciiLower at h ⊢
  split
  · rename_i hupper
    rw [if_pos hupper] at h
    have hle : d.toNat ≤ 90 := hupper.2
    have hvalid : (d.toNat + 32).isValidChar := .inl (by omega)
    have hto : (Char.ofNat (d.toNat + 32)).toNat = d.toNat + 32 := by
      rw [Char.ofNat, dif_pos hvalid]
      rfl
    omega
  · rfl

/-- A character that equals a plain one up to the case of ASCII letters is plain. -/
theorem plain_of_asciiLower_eq {c d : Char} (hd : unicodeSpecial d = d)
    (h : asciiLower c = asciiLower d) : unicodeSpecial c = c := by
  have hspecial : ∀ x : Char, 128 ≤ x.toNat → asciiLower x = x → unicodeSpecial x ≠ x → c ≠ x := by
    rintro x hx hself hne rfl
    rw [hself] at h
    have hdx : asciiLower d = d := asciiLower_eq_self (h ▸ hx)
    rw [hdx] at h
    exact hne (h ▸ hd)
  have hlong := hspecial '\u017f' (by decide) (by decide) (by decide)
  have hkelvin := hspecial '\u212a' (by decide) (by decide) (by decide)
  simp [unicodeSpecial, hlong, hkelvin]

theorem unicodeSpecial_of_foldUnicode {d : Char} (h : foldUnicode d = d) :
    unicodeSpecial d = d := by
  have hlong : d ≠ '\u017f' := by rintro rfl; exact absurd h (by decide)
  have hkelvin : d ≠ '\u212a' := by rintro rfl; exact absurd h (by decide)
  simp [unicodeSpecial, hlong, hkelvin]

theorem map_foldUnicode {s text : List Char} (htext : text.map foldUnicode = text)
    (h : s.map asciiLower = text.map asciiLower) : s.map foldUnicode = text.map foldUnicode := by
  induction s generalizing text with
  | nil =>
    cases text with
    | nil => rfl
    | cons d text => cases h
  | cons c s ih =>
    cases text with
    | nil => cases h
    | cons d text =>
      simp only [List.map_cons, List.cons.injEq] at h htext ⊢
      have hd := unicodeSpecial_of_foldUnicode htext.1
      refine ⟨?_, ih htext.2 h.2⟩
      rw [foldUnicode, foldUnicode, plain_of_asciiLower_eq hd h.1, hd, h.1]

/-- What matches with the letters of ASCII folded also matches with those of Unicode
folded. -/
theorem matchParts_fold {ps : List Part} {ss : List (List Char)}
    (hcanonical : canonical foldUnicode ps = true) (h : matchParts asciiLower ps ss = true) :
    matchParts foldUnicode ps ss = true := by
  induction ps generalizing ss with
  | nil =>
    cases ss with
    | nil => rfl
    | cons s ss => cases h
  | cons p ps ih =>
    cases ss with
    | nil => cases h
    | cons s ss =>
      simp only [canonical, List.all_cons, Bool.and_eq_true] at hcanonical
      simp only [matchParts, Bool.and_eq_true] at h ⊢
      refine ⟨?_, ih hcanonical.2 h.2⟩
      cases p with
      | literal text =>
        have htext : text.map foldUnicode = text := of_decide_eq_true hcanonical.1
        have hs : s.map asciiLower = text.map asciiLower := of_decide_eq_true h.1
        exact decide_eq_true (map_foldUnicode htext hs)
      | param name => exact h.1

/-! ## Two patterns -/

def Part.text : Part → List Char
  | .literal text => text
  | .param name => ':' :: name

/-- Some place has two different literals. -/
def clash : List Part → List Part → Bool
  | .literal a :: gs, .literal b :: ps => a ≠ b || clash gs ps
  | _ :: gs, _ :: ps => clash gs ps
  | _, _ => false

/-- Some place has a literal of the first pattern and a parameter of the second one. -/
def blurred : List Part → List Part → Bool
  | .literal _ :: _, .param _ :: _ => true
  | _ :: gs, _ :: ps => blurred gs ps
  | _, _ => false

/-- Whether the first pattern matches is the same for all paths that match the second. -/
def decides (gs ps : List Part) : Bool :=
  gs.length ≠ ps.length || clash gs ps || !blurred gs ps

theorem matchParts_self (fold : Char → Char) (ps : List Part) :
    matchParts fold ps (ps.map Part.text) = true := by
  induction ps with
  | nil => rfl
  | cons p ps ih =>
    cases p <;> simp [matchParts, Part.matches, Part.text, ih]

theorem matchParts_of_clash {fold : Char → Char} {gs ps : List Part} {ss : List (List Char)}
    (hgs : canonical fold gs = true) (hps : canonical fold ps = true)
    (hclash : clash gs ps = true) (h : matchParts fold ps ss = true) :
    matchParts fold gs ss = false := by
  induction gs generalizing ps ss with
  | nil => cases hclash
  | cons g gs ih =>
    cases ps with
    | nil => cases g <;> cases hclash
    | cons p ps =>
      cases ss with
      | nil => cases h
      | cons s ss =>
        simp only [matchParts, Bool.and_eq_true] at h
        simp only [canonical, List.all_cons, Bool.and_eq_true] at hgs hps
        rw [matchParts, Bool.and_eq_false_iff]
        cases g with
        | param name =>
          cases p <;> exact .inr (ih hgs.2 hps.2 hclash h.2)
        | literal a =>
          cases p with
          | param name => exact .inr (ih hgs.2 hps.2 hclash h.2)
          | literal b =>
            simp only [clash, Bool.or_eq_true, decide_eq_true_eq] at hclash
            rcases hclash with hne | hclash
            · refine .inl (decide_eq_false fun ha => hne ?_)
              have ha' : a.map fold = a := of_decide_eq_true hgs.1
              have hb' : b.map fold = b := of_decide_eq_true hps.1
              have hb : s.map fold = b.map fold := of_decide_eq_true h.1
              rw [← ha', ← ha, hb, hb']
            · exact .inr (ih hgs.2 hps.2 hclash h.2)

theorem matchParts_of_not_blurred {fold : Char → Char} {gs ps : List Part}
    {ss : List (List Char)} (hblurred : blurred gs ps = false)
    (h : matchParts fold ps ss = true) :
    matchParts fold gs ss = matchParts fold gs (ps.map Part.text) := by
  induction gs generalizing ps ss with
  | nil =>
    cases ps with
    | nil =>
      cases ss with
      | nil => rfl
      | cons s ss => cases h
    | cons p ps =>
      cases ss with
      | nil => cases h
      | cons s ss => rfl
  | cons g gs ih =>
    cases ps with
    | nil =>
      cases ss with
      | nil => rfl
      | cons s ss => cases h
    | cons p ps =>
      cases ss with
      | nil => cases h
      | cons s ss =>
        simp only [matchParts, Bool.and_eq_true] at h
        have hrest : blurred gs ps = false := by cases g <;> cases p <;> first | exact hblurred | cases hblurred
        rw [List.map_cons, matchParts, matchParts, ih hrest h.2]
        congr 1
        cases p with
        | param name =>
          cases g with
          | literal a => cases hblurred
          | param name' => simpa [Part.matches, Part.text] using h.1
        | literal b =>
          have hs : s.map fold = b.map fold := by simpa [Part.matches] using h.1
          cases g with
          | literal a => exact decide_eq_decide.mpr (by rw [hs, Part.text])
          | param name' =>
            have hnil : s = [] ↔ b = [] := by
              rw [← List.map_eq_nil_iff (f := fold), hs, List.map_eq_nil_iff]
            exact decide_eq_decide.mpr (not_congr hnil)

/-- **Two patterns.** What the first pattern says of a path of the second one, it says of
the text of the second one. -/
theorem matchParts_text {fold : Char → Char} {gs ps : List Part} {ss : List (List Char)}
    (hgs : canonical fold gs = true) (hps : canonical fold ps = true)
    (hdecides : decides gs ps = true) (h : matchParts fold ps ss = true) :
    matchParts fold gs ss = matchParts fold gs (ps.map Part.text) := by
  simp only [decides, Bool.or_eq_true, decide_eq_true_eq, Bool.not_eq_true'] at hdecides
  rcases hdecides with (hlength | hclash) | hblurred
  · have hfalse : ∀ tt : List (List Char), ps.length = tt.length → matchParts fold gs tt = false := by
      intro tt htt
      by_contra hmatch
      exact hlength ((length_of_matchParts (by simpa using hmatch)).trans htt.symm)
    rw [hfalse ss (length_of_matchParts h), hfalse _ (by simp)]
  · rw [matchParts_of_clash hgs hps hclash h,
      matchParts_of_clash hgs hps hclash (matchParts_self fold ps)]
  · exact matchParts_of_not_blurred hblurred h

/-! ## Express -/

/-- Without the empty segment that one slash at the end of the path leaves. -/
def withoutTrailing (ss : List (List Char)) : List (List Char) :=
  if ss.getLast? = some [] ∧ 2 ≤ ss.length then ss.dropLast else ss

/-- How Express matches a path: it folds ASCII letters and allows one slash at the end. -/
def expressMatch (ps : List Part) (path : List Char) : Option (List (List Char × List Char)) :=
  let ss := withoutTrailing (segments path)
  if matchParts asciiLower ps ss then some (captures ps ss) else none

/-- How Express matches a path against the path of `router.use`: as a prefix. -/
def expressPrefix (ps : List Part) (path : List Char) : Option (List (List Char × List Char)) :=
  let ss := (segments path).take ps.length
  if matchParts asciiLower ps ss then some (captures ps ss) else none

theorem captures_take (ps : List Part) (ss : List (List Char)) (n : Nat) :
    captures (ps.take n) (ss.take n) <+: captures ps ss := by
  induction n generalizing ps ss with
  | zero => simp [captures]
  | succ n ih =>
    cases ps with
    | nil => simp [captures]
    | cons p ps =>
      cases ss with
      | nil => cases p <;> simp [captures]
      | cons s ss =>
        rw [List.take_succ_cons, List.take_succ_cons]
        cases p with
        | literal text => exact ih ps ss
        | param name => exact List.cons_prefix_cons.mpr ⟨rfl, ih ps ss⟩

theorem take_withoutTrailing {ss : List (List Char)} {n : Nat}
    (h : n ≤ (withoutTrailing ss).length) : (withoutTrailing ss).take n = ss.take n := by
  unfold withoutTrailing at h ⊢
  split at h
  · rename_i htrailing
    rw [if_pos htrailing, List.dropLast_eq_take, List.take_take, Nat.min_eq_left]
    rwa [List.length_dropLast] at h
  · rename_i htrailing
    rw [if_neg htrailing]

theorem expressMatch_eq_some {ps : List Part} {path : List Char}
    {caps : List (List Char × List Char)} (h : expressMatch ps path = some caps) :
    matchParts asciiLower ps (withoutTrailing (segments path)) = true ∧
      caps = captures ps (withoutTrailing (segments path)) := by
  simp only [expressMatch] at h
  split at h
  · rename_i hmatch
    exact ⟨hmatch, (Option.some.inj h).symm⟩
  · cases h

/-- A path that a pattern matches has the beginning of the pattern as a prefix, with the
same parameters. -/
theorem prefix_of_expressMatch {ps : List Part} {path : List Char}
    {caps : List (List Char × List Char)} (h : expressMatch ps path = some caps) {n : Nat}
    (hn : n ≤ ps.length) :
    matchParts asciiLower (ps.take n) ((segments path).take n) = true ∧
      captures (ps.take n) ((segments path).take n) <+: caps := by
  obtain ⟨hmatch, rfl⟩ := expressMatch_eq_some h
  have hlength : n ≤ (withoutTrailing (segments path)).length :=
    Nat.le_trans hn (Nat.le_of_eq (length_of_matchParts hmatch))
  rw [← take_withoutTrailing hlength]
  exact ⟨matchParts_take hmatch n, captures_take _ _ n⟩

/-- The last part stands for a segment that is not empty. -/
def endsSolid : List Part → Bool
  | [] => false
  | [p] => p.text ≠ []
  | _ :: ps => endsSolid ps

theorem last_of_matchParts {fold : Char → Char} {ps : List Part} {ss : List (List Char)}
    (hsolid : endsSolid ps = true) (h : matchParts fold ps ss = true) :
    ∃ tt s, ss = tt ++ [s] ∧ s ≠ [] := by
  induction ps generalizing ss with
  | nil => cases hsolid
  | cons p ps ih =>
    cases ss with
    | nil => cases h
    | cons s ss =>
      simp only [matchParts, Bool.and_eq_true] at h
      cases ps with
      | nil =>
        cases ss with
        | cons s' ss => cases h.2
        | nil =>
          refine ⟨[], s, rfl, ?_⟩
          rintro rfl
          cases p with
          | param name => simp [Part.matches] at h
          | literal text =>
            have hne : text ≠ [] := of_decide_eq_true hsolid
            simp only [Part.matches, List.map_nil, decide_eq_true_eq] at h
            exact hne (List.map_eq_nil_iff.mp h.1.symm)
      | cons p' ps =>
        obtain ⟨tt, t, rfl, ht⟩ := ih hsolid h.2
        exact ⟨s :: tt, t, rfl, ht⟩

/-- `path.length > 1 ? path.replace(/\/+$/u, '') : path`. -/
def normalizedPath (path : List Char) : List Char :=
  if 1 < path.length then dropTrailingSlashes path else path

/-- On a path that Express matches, taking all slashes off its end is the same as taking
one off. -/
theorem segments_normalizedPath {fold : Char → Char} {ps : List Part} {path : List Char}
    (hsolid : endsSolid ps = true)
    (h : matchParts fold ps (withoutTrailing (segments path)) = true) :
    segments (normalizedPath path) = withoutTrailing (segments path) := by
  obtain ⟨tt, s, hss, hs⟩ := last_of_matchParts hsolid h
  unfold withoutTrailing at hss ⊢
  split at hss
  · rename_i htrailing
    rw [if_pos htrailing, hss]
    have hlast : segments path = (tt ++ [s]) ++ [[]] := by
      rw [← hss, List.dropLast_append_getLast?]
      exact htrailing.1
    obtain ⟨q, rfl, hq⟩ := eq_append_slash hlast (by simp)
    have hlength : 1 < (q ++ ['/']).length := by
      cases q with
      | nil =>
        have hsplit : [] ++ [[]] = tt ++ [s] := hq
        have hlast := List.append_inj_right' hsplit rfl
        exact absurd hlast (by simpa using Ne.symm hs)
      | cons c q => simp
    rw [normalizedPath, if_pos hlength, dropTrailingSlashes_append_slash,
      dropTrailingSlashes_of_ne hq hs, hq]
  · rename_i htrailing
    rw [if_neg htrailing, normalizedPath, dropTrailingSlashes_of_ne hss hs, ite_self]

theorem Part.text_parse (s : List Char) : (Part.parse s).text = s := by
  cases s with
  | nil => rfl
  | cons c s =>
    unfold Part.parse
    split
    · rename_i heq
      exact heq.symm
    · rfl

/-- The text of a pattern, read as a path, has the parts of the pattern as segments. -/
theorem segments_of_pattern {text : String} (hsolid : endsSolid (pattern text) = true) :
    segments (normalizedPath text.toList) = (pattern text).map Part.text := by
  have htext : (pattern text).map Part.text = segments text.toList := by
    simp [pattern, Part.text_parse, Function.comp_def]
  obtain ⟨tt, s, hlast, hs⟩ := last_of_matchParts hsolid (matchParts_self id (pattern text))
  rw [htext] at hlast ⊢
  rw [normalizedPath, dropTrailingSlashes_of_ne hlast hs, ite_self]

/-! ## Percent decoding -/

def hexValue? (c : Char) : Option Nat :=
  if '0' ≤ c ∧ c ≤ '9' then some (c.toNat - 48)
  else if 'a' ≤ c ∧ c ≤ 'f' then some (c.toNat - 87)
  else if 'A' ≤ c ∧ c ≤ 'F' then some (c.toNat - 55)
  else none

/-- A character that stands for itself, or a byte that is written `%XX`. -/
inductive Token
  | raw (c : Char)
  | byte (b : Nat)
  deriving DecidableEq

def tokens : List Char → Option (List Token)
  | [] => some []
  | '%' :: a :: b :: cs =>
    match hexValue? a, hexValue? b, tokens cs with
    | some x, some y, some ts => some (.byte (16 * x + y) :: ts)
    | _, _, _ => none
  | '%' :: _ => none
  | c :: cs => (tokens cs).map (.raw c :: ·)

/-- Reads the bytes as UTF-8. `need` more bytes belong to the character that has begun,
`acc` is its value so far and `least` the least value that its length may encode. -/
def utf8 (need acc least : Nat) : List Token → Option (List Char)
  | [] => if need = 0 then some [] else none
  | .raw c :: ts => if need = 0 then (utf8 0 0 0 ts).map (c :: ·) else none
  | .byte b :: ts =>
    if need = 0 then
      if b < 0x80 then (utf8 0 0 0 ts).map (Char.ofNat b :: ·)
      else if 0xC2 ≤ b ∧ b < 0xE0 then utf8 1 (b - 0xC0) 0x80 ts
      else if 0xE0 ≤ b ∧ b < 0xF0 then utf8 2 (b - 0xE0) 0x800 ts
      else if 0xF0 ≤ b ∧ b < 0xF5 then utf8 3 (b - 0xF0) 0x10000 ts
      else none
    else if 0x80 ≤ b ∧ b < 0xC0 then
      let value := acc * 64 + (b - 0x80)
      if need = 1 then
        if least ≤ value ∧ value.isValidChar then (utf8 0 0 0 ts).map (Char.ofNat value :: ·)
        else none
      else utf8 (need - 1) value least ts
    else none

/-- `decodeURIComponent`; `none` is the `URIError`. -/
def decodeURIComponent (s : List Char) : Option String :=
  ((tokens s).bind (utf8 0 0 0)).map String.ofList

example : decodeURIComponent "m%C3%A9%41".toList = some "méA" := by decide

end Http
