import AuthMe.Crypto.Csrf

/-!
# Which CSRF tokens are accepted

A token that was created for one form is put together from parts in which there is no `.`, so
`verifyCsrfToken` finds the same parts again. What it then compares is the form and the age. The
length is checked first, and the federation forms with the longest identifiers do not pass: a page
that shows such a form embeds a token that its own submission is rejected with.
-/

namespace AuthMe.Csrf

/-! ## Lengths -/

/-- The length of the subject, from the lengths of the identifiers. -/
def Context.subjectLength : Context → Nat
  | login realm uid => realm.val.toList.length + uid.val.toList.length + 7
  | consent realm uid => realm.val.toList.length + uid.val.toList.length + 9
  | federation realm uid extension provider =>
    11 + (4 * (realm.val.toList.length + uid.val.toList.length + extension.val.toList.length +
      provider.val.toList.length + 13) + 2) / 3

theorem Context.length_subject (c : Context) :
    c.subject.toList.length = c.subjectLength := by
  cases c with
  | login realm uid =>
    have hcolon : ":".toList.length = 1 := by decide
    have hpurpose : ":login".toList.length = 6 := by decide
    simp only [Context.subject, Context.subjectLength, String.toList_append, List.length_append,
      hcolon, hpurpose]
    omega
  | consent realm uid =>
    have hcolon : ":".toList.length = 1 := by decide
    have hpurpose : ":consent".toList.length = 8 := by decide
    simp only [Context.subject, Context.subjectLength, String.toList_append, List.length_append,
      hcolon, hpurpose]
    omega
  | federation realm uid extension provider =>
    obtain ⟨hrealm, huid, hprovider⟩ := federation_plain realm uid provider
    have hprefix : "federation-".toList.length = 11 := by decide
    rw [Context.subject, Context.subjectLength, toList_csrfSubject, List.length_append, hprefix,
      Base64.length_encode,
      Text.length_utf8_ascii (isAscii_stringifyArray hrealm huid extension.plain hprovider),
      length_stringifyArray hrealm huid extension.plain hprovider]

/-! ## The parts of a token -/

theorem toList_toString (n : Int) :
    (0 ≤ n ∧ (toString n).toList = Nat.toDigits 10 n.natAbs) ∨
      (n < 0 ∧ (toString n).toList = '-' :: Nat.toDigits 10 n.natAbs) := by
  cases n with
  | ofNat m => exact Or.inl ⟨Int.natCast_nonneg m, Nat.toList_repr⟩
  | negSucc m =>
    refine Or.inr ⟨Int.negSucc_lt_zero m, ?_⟩
    show ("-" ++ (m + 1).repr).toList = _
    rw [String.toList_append, Nat.toList_repr]
    rfl

theorem isDigit_of_mem_toString (n : Int) :
    ∀ x ∈ (toString n).toList, Base64.isDigit x = true := by
  have decimal : ∀ x ∈ Nat.toDigits 10 n.natAbs, Base64.isDigit x = true := by
    intro x hx
    have hdigit := Nat.isDigit_of_mem_toDigits (by omega) (by omega) hx
    simp only [Char.isDigit, Bool.and_eq_true, decide_eq_true_eq] at hdigit
    have hlow : '0' ≤ x := hdigit.1
    have hhigh : x ≤ '9' := hdigit.2
    simp [Base64.isDigit, hlow, hhigh]
  intro x hx
  rcases toList_toString n with ⟨-, h⟩ | ⟨-, h⟩
  · rw [h] at hx
    exact decimal x hx
  · rw [h, List.mem_cons] at hx
    rcases hx with rfl | hx
    · rfl
    · exact decimal x hx

/-- A number of the clock has at most 14 characters. -/
theorem length_seconds (t : Time) : (toString t.seconds).toList.length ≤ 14 := by
  have hfirst := t.first
  have hlast := t.last
  have hbound : t.seconds.natAbs < 10 ^ 13 := by
    unfold Time.seconds
    omega
  have hlength := (Nat.length_toDigits_le_iff (by omega) (by omega)).mpr hbound
  rcases toList_toString t.seconds with ⟨-, h⟩ | ⟨-, h⟩
  · rw [h]
    omega
  · rw [h, List.length_cons]
    omega

theorem isSafeInteger_seconds (t : Time) : isSafeInteger t.seconds = true := by
  have hfirst := t.first
  have hlast := t.last
  have hlow : -9007199254740991 ≤ t.seconds := by
    unfold Time.seconds
    omega
  have hhigh : t.seconds ≤ 9007199254740991 := by
    unfold Time.seconds
    omega
  simp [isSafeInteger, hlow, hhigh]

theorem mem_intercalate {x sep : Char} {parts : List (List Char)}
    (h : x ∈ [sep].intercalate parts) : x = sep ∨ ∃ part ∈ parts, x ∈ part := by
  induction parts with
  | nil => cases h
  | cons part rest ih =>
    cases rest with
    | nil => exact Or.inr ⟨part, List.mem_cons_self, by simpa using h⟩
    | cons next rest =>
      rw [List.intercalate_cons_cons, List.mem_append, List.mem_append, List.mem_singleton] at h
      rcases h with (h | h) | h
      · exact Or.inr ⟨part, List.mem_cons_self, h⟩
      · exact Or.inl h
      · exact (ih h).imp_right fun ⟨part', hpart, hmem⟩ =>
          ⟨part', List.mem_cons_of_mem part hpart, hmem⟩

theorem splitDots_joinDots {parts : List String} (h : ∀ part ∈ parts, '.' ∉ part.toList)
    (hne : parts ≠ []) : splitDots (joinDots parts) = parts := by
  have hdot : ".".toList = ['.'] := by decide
  rw [splitDots, joinDots, String.toList_intercalate, hdot,
    List.splitOn_intercalate '.' (by simpa using h) (by simpa using hne), List.map_map]
  simp [Function.comp_def]

section

variable (hmac : String → String → Digest) (number : ReadNumber) (nonce : Nonce) (c : Context)
  (secret : String) (t : Time)

/-- The parts of the token that is created for a form. -/
def parts : List String :=
  [c.subject, toString t.seconds, base64url nonce.toList,
    signature hmac (joinDots [c.subject, toString t.seconds, base64url nonce.toList]) secret]

theorem createCsrfToken_eq :
    createCsrfToken hmac nonce c.subject secret t = joinDots (parts hmac nonce c secret t) :=
  rfl

theorem parts_chars : ∀ part ∈ parts hmac nonce c secret t,
    ∀ x ∈ part.toList, Base64.isDigit x = true ∨ x = ':' := by
  have encoded : ∀ bytes : List UInt8, ∀ x ∈ (base64url bytes).toList,
      Base64.isDigit x = true ∨ x = ':' := by
    intro bytes x hx
    rw [toList_base64url] at hx
    exact Or.inl (Base64.isDigit_of_mem_encode hx)
  intro part hpart
  simp only [parts, List.mem_cons, List.not_mem_nil, or_false] at hpart
  rcases hpart with rfl | rfl | rfl | rfl
  · exact c.subject_chars
  · exact fun x hx => Or.inl (isDigit_of_mem_toString t.seconds x hx)
  · exact encoded _
  · exact encoded _

theorem splitDots_createCsrfToken :
    splitDots (createCsrfToken hmac nonce c.subject secret t) = parts hmac nonce c secret t := by
  rw [createCsrfToken_eq]
  apply splitDots_joinDots _ (List.cons_ne_nil _ _)
  intro part hpart hmem
  rcases parts_chars hmac nonce c secret t part hpart '.' hmem with h | h
  · exact absurd h (by decide)
  · exact absurd h (by decide)

theorem isAscii_createCsrfToken :
    Text.isAscii (createCsrfToken hmac nonce c.subject secret t) = true := by
  have hdot : ".".toList = ['.'] := by decide
  apply List.all_eq_true.mpr
  intro x hx
  rw [createCsrfToken_eq, joinDots, String.toList_intercalate, hdot] at hx
  rcases mem_intercalate hx with rfl | ⟨part, hpart, hmem⟩
  · decide
  · obtain ⟨text, htext, rfl⟩ := List.mem_map.mp hpart
    rcases parts_chars hmac nonce c secret t text htext x hmem with h | rfl
    · have hrange := isDigit_range h
      exact decide_eq_true (by omega)
    · decide

theorem length_createCsrfToken :
    Text.length (createCsrfToken hmac nonce c.subject secret t) =
      c.subjectLength + (toString t.seconds).toList.length + 70 := by
  have hlist : (createCsrfToken hmac nonce c.subject secret t).toList =
      ['.'].intercalate ((parts hmac nonce c secret t).map String.toList) := by
    rw [createCsrfToken_eq, joinDots, String.toList_intercalate]
    rfl
  rw [Text.length_ascii (isAscii_createCsrfToken hmac nonce c secret t), hlist]
  simp only [parts, List.map_cons, List.map_nil, List.intercalate, List.intersperse,
    List.flatten_cons, List.flatten_nil, List.length_append, List.length_cons, List.length_nil,
    c.length_subject, signature, toList_base64url, Base64.length_encode, Vector.length_toList]
  omega

end

/-! ## Which tokens are accepted -/

/-- The age of a token created at `t` is within the window of ten minutes. -/
def Accepted (t now : Time) : Prop :=
  -30 ≤ now.seconds - t.seconds ∧ now.seconds - t.seconds ≤ 600

/-- The token of the form is not longer than the limit. The forms for sign-in and consent always
are short enough; a federation form is if its identifiers are. -/
def Fits (c : Context) (t : Time) : Prop :=
  match c with
  | .login _ _ | .consent _ _ => True
  | .federation realm uid extension provider =>
    (4 * (realm.val.toList.length + uid.val.toList.length + extension.val.toList.length +
      provider.val.toList.length + 13) + 2) / 3 + (toString t.seconds).toList.length ≤ 431

section

variable {hmac : String → String → Digest} {number : ReadNumber} {nonce : Nonce} {c c' : Context}
  {secret : String} {t now : Time}

theorem verifyCsrfToken_created :
    verifyCsrfToken hmac number (some (createCsrfToken hmac nonce c.subject secret t)) c'.subject
        secret now = true ↔
      c.subjectLength + (toString t.seconds).toList.length ≤ 442 ∧ c = c' ∧ Accepted t now := by
  simp only [verifyCsrfToken, length_createCsrfToken, splitDots_createCsrfToken, parts]
  by_cases hlength : c.subjectLength + (toString t.seconds).toList.length ≤ 442
  · rw [if_neg (by omega)]
    by_cases hsubject : c = c'
    · subst hsubject
      rw [number.decimal _ (isSafeInteger_seconds t)]
      simp only [ne_eq, not_true_eq_false, if_false, hlength, true_and, Accepted]
      by_cases hage : now.seconds - t.seconds < -30 ∨ 600 < now.seconds - t.seconds
      · rw [if_pos hage]
        simp only [Bool.false_eq_true, false_iff]
        omega
      · rw [if_neg hage]
        simp only [decide_true, true_iff]
        omega
    · have hne : c.subject ≠ c'.subject := fun h => hsubject (Context.subject_injective h)
      rw [if_pos hne]
      simp [hsubject]
  · rw [if_pos (by omega)]
    simp only [hlength, false_and, Bool.false_eq_true]

theorem Realm.length (realm : Realm) : realm.val.toList.length ≤ 63 := length_of_named realm.property

theorem fits_iff : Fits c t ↔
    c.subjectLength + (toString t.seconds).toList.length ≤ 442 := by
  have hseconds := length_seconds t
  cases c with
  | login realm uid =>
    have hrealm := realm.length
    have huid := uid.length
    simp only [Fits, Context.subjectLength, true_iff]
    omega
  | consent realm uid =>
    have hrealm := realm.length
    have huid := uid.length
    simp only [Fits, Context.subjectLength, true_iff]
    omega
  | federation realm uid extension provider =>
    simp only [Fits, Context.subjectLength]
    omega

end

/-- A token is never accepted for another form or outside of its window. It is accepted for its own
form all through the window exactly if it is short enough. -/
theorem created_token_accepted_iff (hmac : String → String → Digest) (number : ReadNumber)
    (nonce : Nonce) (secret : String) (c : Context) (t : Time) :
    (∀ c' now, verifyCsrfToken hmac number
        (some (createCsrfToken hmac nonce c.subject secret t)) c'.subject secret now = true →
      c = c' ∧ Accepted t now) ∧
    ((∀ c' now, verifyCsrfToken hmac number
        (some (createCsrfToken hmac nonce c.subject secret t)) c'.subject secret now = true ↔
      c = c' ∧ Accepted t now) ↔ Fits c t) := by
  constructor
  · intro c' now h
    exact (verifyCsrfToken_created.mp h).2
  · rw [fits_iff]
    constructor
    · intro law
      have hown : Accepted t t := by
        unfold Accepted
        omega
      exact (verifyCsrfToken_created.mp ((law c t).mpr ⟨rfl, hown⟩)).1
    · intro hfits c' now
      rw [verifyCsrfToken_created]
      exact and_iff_right hfits

/-! ## A form whose token is too long -/

/-- The integer that decimal digits are. -/
def readDigits (digits : List Char) : Option Int :=
  if digits ≠ [] ∧ digits.all Char.isDigit then
    let n := Int.ofNat (Nat.ofDigitChars 10 digits 0)
    if isSafeInteger n then some n else none
  else none

/-- Reads decimal integers, and no other texts that `Number` accepts. -/
def readDecimal (text : String) : Option Int :=
  match text.toList with
  | '-' :: digits => (readDigits digits).map fun n => -n
  | digits => readDigits digits

theorem readDigits_toDigits {n : Nat} (h : isSafeInteger (Int.ofNat n) = true) :
    readDigits (Nat.toDigits 10 n) = some (Int.ofNat n) := by
  have hne : Nat.toDigits 10 n ≠ [] := by
    intro hnil
    have hpos := @Nat.length_toDigits_pos 10 n
    rw [hnil] at hpos
    exact absurd hpos (by decide)
  have hall : (Nat.toDigits 10 n).all Char.isDigit = true :=
    List.all_eq_true.mpr fun c hc => Nat.isDigit_of_mem_toDigits (by omega) (by omega) hc
  unfold readDigits
  rw [if_pos ⟨hne, hall⟩, Nat.ofDigitChars_toDigits (by omega) (by omega)]
  exact if_pos h

theorem readDecimal_toString {n : Int} (h : isSafeInteger n = true) :
    readDecimal (toString n) = some n := by
  have hsafe : isSafeInteger (Int.ofNat n.natAbs) = true := by
    simp only [isSafeInteger, Bool.and_eq_true, decide_eq_true_eq] at h ⊢
    show -9007199254740991 ≤ (n.natAbs : Int) ∧ (n.natAbs : Int) ≤ 9007199254740991
    omega
  have hread := readDigits_toDigits hsafe
  unfold readDecimal
  rcases toList_toString n with ⟨hn, htext⟩ | ⟨hn, htext⟩
  · rw [htext]
    split
    · rename_i digits heq
      have hminus := Nat.isDigit_of_mem_toDigits (b := 10) (n := n.natAbs) (c := '-') (by omega)
        (by omega) (heq ▸ List.mem_cons_self)
      exact absurd hminus (by decide)
    · rw [hread]
      show some (n.natAbs : Int) = some n
      rw [Int.natAbs_of_nonneg hn]
  · rw [htext]
    show (readDigits (Nat.toDigits 10 n.natAbs)).map (fun n => -n) = some n
    rw [hread]
    show some (-(n.natAbs : Int)) = some n
    rw [Int.ofNat_natAbs_of_nonpos (by omega), Int.neg_neg]

/-- `Number` on decimal integers. -/
def ReadNumber.onlyDecimal : ReadNumber := ⟨readDecimal, fun _ => readDecimal_toString⟩

theorem master_pattern : realmPattern "master" = true := by decide

theorem longest_pattern :
    interactionUidPattern (String.ofList (List.replicate 256 'a')) = true := by
  simp only [interactionUidPattern, String.toList_ofList, List.all_replicate,
    List.length_replicate]
  decide

theorem samlFederation_pattern : extensionIdPattern "builtin.saml-federation" = true := by decide

theorem corporateDirectory_pattern : providerIdPattern "corporate-directory" = true := by decide

/-- The form for a SAML provider, in an interaction whose uid is as long as the pattern admits. -/
def longForm : Context :=
  .federation ⟨_, master_pattern⟩ ⟨_, longest_pattern⟩ ⟨_, samlFederation_pattern⟩
    ⟨_, corporateDirectory_pattern⟩

theorem july_first : -8640000000000000 ≤ (1783944000000 : Int) := by decide

theorem july_last : (1783944000000 : Int) ≤ 8640000000000000 := by decide

/-- Noon of 13 July 2026, in UTC. -/
def july : Time := ⟨1783944000000, july_first, july_last⟩

def zeroHmac (_secret _payload : String) : Digest := Vector.replicate 32 0

theorem longForm_length : longForm.subjectLength = 434 := by
  have hmaster : "master".toList.length = 6 := by decide
  have hextension : "builtin.saml-federation".toList.length = 23 := by decide
  have hprovider : "corporate-directory".toList.length = 19 := by decide
  simp only [longForm, Context.subjectLength, String.toList_ofList, List.length_replicate, hmaster,
    hextension, hprovider]

/-- The form is rejected with its own token at the time the token was created. -/
theorem longForm_rejected_with_own_token :
    ¬ (verifyCsrfToken zeroHmac .onlyDecimal
        (some (createCsrfToken zeroHmac (Vector.replicate 18 0) longForm.subject "secret" july))
        longForm.subject "secret" july = true ↔ longForm = longForm ∧ Accepted july july) := by
  intro law
  have hown : Accepted july july := by
    unfold Accepted
    omega
  have hlength := (verifyCsrfToken_created.mp (law.mpr ⟨rfl, hown⟩)).1
  have hseconds : (toString july.seconds).toList.length = 10 := by decide
  rw [longForm_length, hseconds] at hlength
  exact absurd hlength (by decide)

end AuthMe.Csrf
