import AuthMe.Scim.LiteralExact

/-!
# JSON arrays of strings

`JSON.stringify` of an array of strings, which the repository uses as the key of a map and in what it
signs. Whatever the strings are, two arrays with the same text are the same (`stringifyArray_injective`).
-/

namespace AuthMe.Scim

/-- `JSON.stringify` of an array of strings. -/
def stringifyArray (texts : List String) : String :=
  "[" ++ String.intercalate "," (texts.map fun text => stringify (Text.units text)) ++ "]"

theorem lt_of_mem_units {s : String} {u : Nat} (h : u ∈ Text.units s) : u < 0x10000 := by
  obtain ⟨c, -, hu⟩ := List.mem_flatMap.mp h
  have hc : c.toNat < 0x110000 := by
    rcases c.valid with hvalid | hvalid
    · show c.val.toNat < 0x110000
      omega
    · exact hvalid.2
  unfold Text.charUnits at hu
  split at hu
  · simp only [List.mem_singleton] at hu
    omega
  · simp only [List.mem_cons, List.not_mem_nil, or_false] at hu
    omega

/-- What is written after an element: the elements that follow, and the bracket. -/
def arrayRest : List String → List Char
  | [] => [']']
  | text :: texts => ',' :: '"' :: (quote (Text.units text) ++ '"' :: arrayRest texts)

theorem toList_stringifyArray_cons (text : String) (texts : List String) :
    (stringifyArray (text :: texts)).toList =
      '[' :: '"' :: (quote (Text.units text) ++ '"' :: arrayRest texts) := by
  have hcomma : ",".toList = [','] := by decide
  have hopen : "[".toList = ['['] := by decide
  have hclose : "]".toList = [']'] := by decide
  have elements : ∀ (text : String) (texts : List String),
      [','].intercalate ((text :: texts).map fun text => (stringify (Text.units text)).toList) ++
        [']'] = '"' :: (quote (Text.units text) ++ '"' :: arrayRest texts) := by
    intro text texts
    induction texts generalizing text with
    | nil => simp [stringify, arrayRest]
    | cons next texts ih =>
      rw [List.map_cons, List.map_cons, List.intercalate_cons_cons, List.append_assoc,
        ← List.map_cons (f := fun text => (stringify (Text.units text)).toList), ih next]
      simp [stringify, arrayRest]
  rw [stringifyArray, String.toList_append, String.toList_append, String.toList_intercalate,
    hcomma, hopen, hclose, List.append_assoc, List.map_map]
  exact congrArg ('[' :: ·) (elements text texts)

/-- One element is read off, whatever it contains. -/
theorem element_inj {text text' : String} {rest rest' : List Char}
    (h : quote (Text.units text) ++ '"' :: rest = quote (Text.units text') ++ '"' :: rest') :
    text = text' ∧ rest = rest' := by
  have read : ∀ (text : String) (rest : List Char),
      quotedBody (quote (Text.units text) ++ '"' :: rest) = some (quote (Text.units text), rest) :=
    fun text rest => quotedBody_chars (quote_chars fun _ => lt_of_mem_units) rest
  have hboth := read text rest
  rw [h, read text' rest'] at hboth
  have hpair := Option.some.inj hboth
  have hquote : quote (Text.units text') = quote (Text.units text) := congrArg Prod.fst hpair
  have hunits := congrArg parseLiteral hquote
  rw [parseLiteral_quote fun _ => lt_of_mem_units,
    parseLiteral_quote fun _ => lt_of_mem_units] at hunits
  exact ⟨Text.units_inj.mp (Option.some.inj hunits).symm, (congrArg Prod.snd hpair).symm⟩

theorem arrayRest_injective : Function.Injective arrayRest := by
  intro texts
  induction texts with
  | nil =>
    intro texts' h
    cases texts' with
    | nil => rfl
    | cons text' texts' =>
      simp only [arrayRest] at h
      cases h
  | cons text texts ih =>
    intro texts' h
    cases texts' with
    | nil =>
      simp only [arrayRest] at h
      cases h
    | cons text' texts' =>
      simp only [arrayRest, List.cons.injEq, true_and] at h
      obtain ⟨htext, hrest⟩ := element_inj h
      rw [htext, ih hrest]

theorem stringifyArray_injective : Function.Injective stringifyArray := by
  intro texts texts' h
  have hlists := congrArg String.toList h
  have hempty : (stringifyArray []).toList = ['[', ']'] := by decide
  cases texts with
  | nil =>
    cases texts' with
    | nil => rfl
    | cons text' texts' =>
      rw [hempty, toList_stringifyArray_cons] at hlists
      cases hlists
  | cons text texts =>
    cases texts' with
    | nil =>
      rw [hempty, toList_stringifyArray_cons] at hlists
      cases hlists
    | cons text' texts' =>
      rw [toList_stringifyArray_cons, toList_stringifyArray_cons] at hlists
      simp only [List.cons.injEq, true_and] at hlists
      obtain ⟨htext, hrest⟩ := element_inj hlists
      rw [htext, arrayRest_injective hrest]

end AuthMe.Scim
