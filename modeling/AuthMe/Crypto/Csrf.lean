import AuthMe.Encoding.Base64
import AuthMe.Scim.JsonArray
import AuthMe.Basic

/-!
# CSRF tokens

`src/src/crypto/csrf.js`, with the subjects that the routes make tokens for: the sign-in and consent
forms of `src/src/routes/interactions.js`, and `csrfSubject` of `src/src/routes/federation.js`.

A token is `subject.seconds.nonce.signature`. The signature is any function to 32 bytes, and nothing
is assumed about it. A subject is bound to one form by the texts alone: the parts of a token are
told apart by `.`, and no subject contains one.
-/

namespace AuthMe.Csrf

/-! ## Tokens -/

/-- A time value of ECMAScript: milliseconds since 1970, at most 100,000,000 days from there. -/
structure Time where
  ms : Int
  first : -8640000000000000 ≤ ms
  last : ms ≤ 8640000000000000

/-- `Math.floor(now / 1000)`. -/
def Time.seconds (t : Time) : Int := t.ms / 1000

/-- `Number(text)`, as far as `Number.isSafeInteger` accepts it. -/
structure ReadNumber where
  apply : String → Option Int
  decimal : ∀ n : Int, isSafeInteger n = true → apply (toString n) = some n

instance : CoeFun ReadNumber fun _ => String → Option Int := ⟨ReadNumber.apply⟩

abbrev Digest := Vector UInt8 32

abbrev Nonce := Vector UInt8 18

/-- `toString('base64url')`. -/
def base64url (bytes : List UInt8) : String := String.ofList (Base64.encode bytes)

/-- `join('.')`. -/
def joinDots (parts : List String) : String := String.intercalate "." parts

/-- `split('.')`. -/
def splitDots (token : String) : List String := (token.toList.splitOn '.').map String.ofList

section

-- `hmac` is `createHmac('sha256', secret).update(payload).digest()`, of the secret and the payload.
variable (hmac : String → String → Digest) (number : ReadNumber)

def signature (payload secret : String) : String := base64url (hmac secret payload).toList

def createCsrfToken (nonce : Nonce) (subject secret : String) (now : Time) : String :=
  let payload := subject ++ "." ++ toString now.seconds ++ "." ++ base64url nonce.toList
  payload ++ "." ++ signature hmac payload secret

/-- `none` is a value that is no string. To compare two texts of bytes of the same length in
constant time is to compare the texts, as the signature is ASCII. -/
def verifyCsrfToken (token : Option String) (subject secret : String) (now : Time)
    (maxAgeSeconds : Int := 600) : Bool :=
  match token with
  | none => false
  | some token =>
    if 512 < Text.length token then false
    else
      match splitDots token with
      | [first, second, third, fourth] =>
        if first ≠ subject then false
        else
          match number second with
          | none => false
          | some timestamp =>
            let age := now.seconds - timestamp
            if age < -30 ∨ maxAgeSeconds < age then false
            else signature hmac (joinDots [first, second, third]) secret = fourth
      | _ => false

end

/-! ## Identifiers -/

def isLower (c : Char) : Bool := 'a' ≤ c && c ≤ 'z'

def isDecimal (c : Char) : Bool := '0' ≤ c && c ≤ '9'

/-- `/^[a-z][…]{min,max}$/`. -/
def named (rest : Char → Bool) (min max : Nat) (text : String) : Bool :=
  match text.toList with
  | [] => false
  | c :: cs => isLower c && cs.all rest && min ≤ cs.length && cs.length ≤ max

/-- `/^[a-z][a-z0-9-]{0,62}$/`, of `realmNames` in `src/src/config.js`. -/
def realmPattern : String → Bool := named (fun c => isLower c || isDecimal c || c == '-') 0 62

/-- `/^[a-z][a-z0-9.-]{1,63}$/`. -/
def extensionIdPattern : String → Bool :=
  named (fun c => isLower c || isDecimal c || c == '.' || c == '-') 1 63

/-- `/^[a-z][a-z0-9-]{1,31}$/`. -/
def providerIdPattern : String → Bool := named (fun c => isLower c || isDecimal c || c == '-') 1 31

/-- `/^[A-Za-z0-9_-]{1,256}$/`. -/
def interactionUidPattern (text : String) : Bool :=
  text.toList.all Base64.isDigit && 1 ≤ text.toList.length && text.toList.length ≤ 256

abbrev Realm := { text : String // realmPattern text = true }

abbrev Uid := { text : String // interactionUidPattern text = true }

abbrev ExtensionId := { text : String // extensionIdPattern text = true }

abbrev ProviderId := { text : String // providerIdPattern text = true }

/-- What a form is for. -/
inductive Context
  | login (realm : Realm) (uid : Uid)
  | consent (realm : Realm) (uid : Uid)
  | federation (realm : Realm) (uid : Uid) (extensionId : ExtensionId) (providerId : ProviderId)

/-- `csrfSubject` of the federation routes. -/
def csrfSubject (realm interactionUid extensionId providerId : String) : String :=
  "federation-" ++
    base64url (Text.utf8 (Scim.stringifyArray [realm, interactionUid, extensionId, providerId]))

def Context.subject : Context → String
  | login realm uid => realm.val ++ ":" ++ uid.val ++ ":login"
  | consent realm uid => realm.val ++ ":" ++ uid.val ++ ":consent"
  | federation realm uid extensionId providerId =>
    csrfSubject realm.val uid.val extensionId.val providerId.val

/-! ## The characters of the parts -/

theorem isDigit_range {c : Char} (h : Base64.isDigit c = true) :
    c.toNat = 45 ∨ (48 ≤ c.toNat ∧ c.toNat ≤ 57) ∨ (65 ≤ c.toNat ∧ c.toNat ≤ 90) ∨
      c.toNat = 95 ∨ (97 ≤ c.toNat ∧ c.toNat ≤ 122) := by
  have le_toNat : ∀ {a b : Char}, a ≤ b → a.toNat ≤ b.toNat := fun hle =>
    UInt32.le_iff_toNat_le.mp (Char.le_def.mp hle)
  simp only [Base64.isDigit, Bool.or_eq_true, Bool.and_eq_true, decide_eq_true_eq,
    beq_iff_eq] at h
  rcases h with (((h | h) | h) | rfl) | rfl
  · exact Or.inr (Or.inr (Or.inl ⟨le_toNat h.1, le_toNat h.2⟩))
  · exact Or.inr (Or.inr (Or.inr (Or.inr ⟨le_toNat h.1, le_toNat h.2⟩)))
  · exact Or.inr (Or.inl ⟨le_toNat h.1, le_toNat h.2⟩)
  · exact Or.inl rfl
  · exact Or.inr (Or.inr (Or.inr (Or.inl rfl)))

/-- A character of an identifier. -/
def isPlain (c : Char) : Bool := Base64.isDigit c || c == '.'

theorem isPlain_of_isDigit {c : Char} (h : Base64.isDigit c = true) : isPlain c = true := by
  simp [isPlain, h]

theorem isPlain_range {c : Char} (h : isPlain c = true) :
    45 ≤ c.toNat ∧ c.toNat ≤ 122 ∧ c.toNat ≠ 0x5C := by
  simp only [isPlain, Bool.or_eq_true, beq_iff_eq] at h
  rcases h with h | rfl
  · have hrange := isDigit_range h
    omega
  · decide

theorem isDigit_of_isLower {c : Char} (h : isLower c = true) : Base64.isDigit c = true := by
  simp only [isLower] at h
  simp [Base64.isDigit, h]

theorem chars_of_named {rest p : Char → Bool} {min max : Nat} {text : String}
    (hlower : ∀ c, isLower c = true → p c = true) (hrest : ∀ c, rest c = true → p c = true)
    (h : named rest min max text = true) : ∀ c ∈ text.toList, p c = true := by
  unfold named at h
  intro c hc
  split at h
  · cases h
  · rename_i first cs htext
    simp only [Bool.and_eq_true, List.all_eq_true] at h
    rw [htext, List.mem_cons] at hc
    rcases hc with rfl | hc
    · exact hlower _ h.1.1.1
    · exact hrest _ (h.1.1.2 c hc)

theorem length_of_named {rest : Char → Bool} {min max : Nat} {text : String}
    (h : named rest min max text = true) : text.toList.length ≤ max + 1 := by
  unfold named at h
  split at h
  · cases h
  · rename_i first cs htext
    simp only [Bool.and_eq_true, decide_eq_true_eq] at h
    rw [htext, List.length_cons]
    omega

theorem digits_of_named {min max : Nat} {text : String}
    (h : named (fun c => isLower c || isDecimal c || c == '-') min max text = true) :
    ∀ c ∈ text.toList, Base64.isDigit c = true := by
  apply chars_of_named (fun c => isDigit_of_isLower) _ h
  intro c hc
  simp only [isLower, isDecimal, Bool.or_eq_true, beq_iff_eq] at hc
  rcases hc with (hc | hc) | rfl
  · simp [Base64.isDigit, hc]
  · simp [Base64.isDigit, hc]
  · rfl

theorem Realm.digits (realm : Realm) : ∀ c ∈ realm.val.toList, Base64.isDigit c = true :=
  digits_of_named realm.property

theorem ProviderId.digits (provider : ProviderId) :
    ∀ c ∈ provider.val.toList, Base64.isDigit c = true :=
  digits_of_named provider.property

theorem ExtensionId.plain (extension : ExtensionId) :
    ∀ c ∈ extension.val.toList, isPlain c = true := by
  apply chars_of_named (fun c hc => isPlain_of_isDigit (isDigit_of_isLower hc)) _
    extension.property
  intro c hc
  simp only [isLower, isDecimal, Bool.or_eq_true, beq_iff_eq] at hc
  rcases hc with ((hc | hc) | rfl) | rfl
  · simp [isPlain, Base64.isDigit, hc]
  · simp [isPlain, Base64.isDigit, hc]
  · rfl
  · rfl

theorem Uid.digits (uid : Uid) : ∀ c ∈ uid.val.toList, Base64.isDigit c = true := by
  have h := uid.property
  simp only [interactionUidPattern, Bool.and_eq_true, List.all_eq_true] at h
  exact h.1.1

theorem Uid.length (uid : Uid) : uid.val.toList.length ≤ 256 := by
  have h := uid.property
  simp only [interactionUidPattern, Bool.and_eq_true, decide_eq_true_eq] at h
  exact h.2

/-- A separator is in no text of the alphabet. -/
theorem not_mem_of_digits {cs : List Char} (h : ∀ c ∈ cs, Base64.isDigit c = true) {x : Char}
    (hx : Base64.isDigit x = false) : x ∉ cs := by
  intro hmem
  rw [h x hmem] at hx
  cases hx

/-! ## The subjects -/

/-- What `JSON.stringify` makes of an identifier is the identifier in quotation marks. -/
theorem quote_plain {cs : List Char} (h : ∀ c ∈ cs, isPlain c = true) :
    Scim.quote (cs.flatMap Text.charUnits) = cs := by
  induction cs with
  | nil => rfl
  | cons c cs ih =>
    have hrange := isPlain_range (h c List.mem_cons_self)
    have hunits : Text.charUnits c = [c.toNat] := if_pos (by omega)
    have hhigh : Text.isHighSurrogate c.toNat = false := by
      simp only [Text.isHighSurrogate, Bool.and_eq_false_iff, decide_eq_false_iff_not]
      omega
    have hlow : Text.isLowSurrogate c.toNat = false := by
      simp only [Text.isLowSurrogate, Bool.and_eq_false_iff, decide_eq_false_iff_not]
      omega
    have hshort : Scim.shortEscape c.toNat = none := by
      unfold Scim.shortEscape
      split <;> first | rfl | omega
    have hunit : Scim.quoteUnit c.toNat = [c] := by
      unfold Scim.quoteUnit
      rw [hshort]
      simp only [hhigh, hlow, Bool.or_false, decide_eq_true_eq]
      rw [if_neg (by omega), Char.ofNat_toNat]
    have ih := ih fun d hd => h d (List.mem_cons_of_mem c hd)
    rw [List.flatMap_cons, hunits]
    cases hrest : cs.flatMap Text.charUnits with
    | nil =>
      rw [hrest] at ih
      rw [← ih]
      exact hunit
    | cons u units =>
      rw [hrest] at ih
      show Scim.quote (c.toNat :: u :: units) = c :: cs
      rw [Scim.quote]
      simp only [hhigh, Bool.false_and, Bool.false_eq_true, if_false]
      rw [hunit, ih]
      rfl

theorem stringify_plain {text : String} (h : ∀ c ∈ text.toList, isPlain c = true) :
    (Scim.stringify (Text.units text)).toList = '"' :: text.toList ++ ['"'] := by
  rw [Scim.stringify, Text.units, quote_plain h, String.toList_ofList]

/-- The four identifiers are every other one of the texts between quotation marks. -/
theorem stringifyArray_plain {a b c d : String} (ha : ∀ x ∈ a.toList, isPlain x = true)
    (hb : ∀ x ∈ b.toList, isPlain x = true) (hc : ∀ x ∈ c.toList, isPlain x = true)
    (hd : ∀ x ∈ d.toList, isPlain x = true) :
    (Scim.stringifyArray [a, b, c, d]).toList =
      ['"'].intercalate [['['], a.toList, [','], b.toList, [','], c.toList, [','], d.toList,
        [']']] := by
  simp only [Scim.stringifyArray, String.toList_append, String.toList_intercalate, List.map_cons,
    List.map_nil, stringify_plain ha, stringify_plain hb, stringify_plain hc, stringify_plain hd]
  simp [List.intercalate, List.intersperse]

/-- Texts put together with a separator that is in none of them can be told apart. -/
theorem intercalate_inj {x : Char} {parts parts' : List (List Char)}
    (hx : ∀ part ∈ parts, x ∉ part) (hx' : ∀ part ∈ parts', x ∉ part) (hne : parts ≠ [])
    (hne' : parts' ≠ []) (h : [x].intercalate parts = [x].intercalate parts') :
    parts = parts' := by
  rw [← List.splitOn_intercalate x hx hne, ← List.splitOn_intercalate x hx' hne', h]

section

variable {a b c d : String} (ha : ∀ x ∈ a.toList, isPlain x = true)
  (hb : ∀ x ∈ b.toList, isPlain x = true) (hc : ∀ x ∈ c.toList, isPlain x = true)
  (hd : ∀ x ∈ d.toList, isPlain x = true)

include ha hb hc hd

theorem isAscii_stringifyArray : Text.isAscii (Scim.stringifyArray [a, b, c, d]) = true := by
  have hascii : ∀ cs : List Char, (∀ x ∈ cs, isPlain x = true) →
      (cs.all fun x => x.toNat < 0x80) = true := by
    intro cs hcs
    apply List.all_eq_true.mpr
    intro x hx
    have hrange := isPlain_range (hcs x hx)
    exact decide_eq_true (by omega)
  rw [Text.isAscii, stringifyArray_plain ha hb hc hd]
  simp only [List.intercalate, List.intersperse, List.flatten_cons, List.flatten_nil,
    List.all_append, hascii _ ha, hascii _ hb, hascii _ hc, hascii _ hd]
  rfl

theorem length_stringifyArray : (Scim.stringifyArray [a, b, c, d]).toList.length =
    a.toList.length + b.toList.length + c.toList.length + d.toList.length + 13 := by
  rw [stringifyArray_plain ha hb hc hd]
  simp only [List.intercalate, List.intersperse, List.flatten_cons, List.flatten_nil,
    List.length_append, List.length_cons, List.length_nil]
  omega

end

/-- The identifiers of a federation form, as `stringifyArray` needs them. -/
theorem federation_plain (realm : Realm) (uid : Uid) (provider : ProviderId) :
    (∀ x ∈ realm.val.toList, isPlain x = true) ∧ (∀ x ∈ uid.val.toList, isPlain x = true) ∧
      ∀ x ∈ provider.val.toList, isPlain x = true :=
  ⟨fun x hx => isPlain_of_isDigit (realm.digits x hx),
    fun x hx => isPlain_of_isDigit (uid.digits x hx),
    fun x hx => isPlain_of_isDigit (provider.digits x hx)⟩

theorem toList_colons (realm : Realm) (uid : Uid) (purpose : String) :
    (realm.val ++ ":" ++ uid.val ++ (":" ++ purpose)).toList =
      [':'].intercalate [realm.val.toList, uid.val.toList, purpose.toList] := by
  simp [List.intercalate, List.intersperse]

theorem toList_base64url (bytes : List UInt8) :
    (base64url bytes).toList = Base64.encode bytes := by
  rw [base64url, String.toList_ofList]

theorem toList_csrfSubject (realm uid extension provider : String) :
    (csrfSubject realm uid extension provider).toList = "federation-".toList ++
      Base64.encode (Text.utf8 (Scim.stringifyArray [realm, uid, extension, provider])) := by
  rw [csrfSubject, String.toList_append, toList_base64url]

/-- A subject has no character but those of the alphabet and `:`. -/
theorem Context.subject_chars (c : Context) :
    ∀ x ∈ c.subject.toList, Base64.isDigit x = true ∨ x = ':' := by
  have colons : ∀ (realm : Realm) (uid : Uid) (purpose : String),
      (∀ x ∈ purpose.toList, Base64.isDigit x = true ∨ x = ':') →
      ∀ x ∈ (realm.val ++ ":" ++ uid.val ++ purpose).toList,
        Base64.isDigit x = true ∨ x = ':' := by
    intro realm uid purpose hpurpose x hx
    simp only [String.toList_append, List.mem_append] at hx
    rcases hx with ((hx | hx) | hx) | hx
    · exact Or.inl (realm.digits x hx)
    · exact Or.inr (by simpa using hx)
    · exact Or.inl (uid.digits x hx)
    · exact hpurpose x hx
  have literal : ∀ s : String,
      (s.toList.all fun x => Base64.isDigit x || x == ':') = true →
      ∀ x ∈ s.toList, Base64.isDigit x = true ∨ x = ':' := by
    intro s hs x hx
    have hchar := List.all_eq_true.mp hs x hx
    simpa only [Bool.or_eq_true, beq_iff_eq] using hchar
  cases c with
  | login realm uid => exact colons realm uid ":login" (literal _ (by decide))
  | consent realm uid => exact colons realm uid ":consent" (literal _ (by decide))
  | federation realm uid extension provider =>
    intro x hx
    rw [Context.subject, toList_csrfSubject, List.mem_append] at hx
    rcases hx with hx | hx
    · exact literal "federation-" (by decide) x hx
    · exact Or.inl (Base64.isDigit_of_mem_encode hx)

/-- A federation form has no `:` in its subject. -/
theorem federation_no_colon (realm uid extension provider : String) :
    ':' ∉ (csrfSubject realm uid extension provider).toList := by
  rw [toList_csrfSubject, List.mem_append]
  rintro (h | h)
  · exact absurd h (by decide)
  · exact absurd (Base64.isDigit_of_mem_encode h) (by decide)

theorem toList_colons_inj {realm realm' : Realm} {uid uid' : Uid} {purpose purpose' : String}
    (hpurpose : ':' ∉ purpose.toList) (hpurpose' : ':' ∉ purpose'.toList)
    (h : realm.val ++ ":" ++ uid.val ++ (":" ++ purpose) =
      realm'.val ++ ":" ++ uid'.val ++ (":" ++ purpose')) :
    realm = realm' ∧ uid = uid' ∧ purpose = purpose' := by
  have hcolon : Base64.isDigit ':' = false := by decide
  have hparts := congrArg String.toList h
  rw [toList_colons, toList_colons] at hparts
  have heq := intercalate_inj (by
    simp [not_mem_of_digits realm.digits hcolon, not_mem_of_digits uid.digits hcolon, hpurpose])
    (by simp [not_mem_of_digits realm'.digits hcolon, not_mem_of_digits uid'.digits hcolon,
      hpurpose']) (List.cons_ne_nil _ _) (List.cons_ne_nil _ _) hparts
  simp only [List.cons.injEq, String.toList_inj, and_true] at heq
  exact ⟨Subtype.ext heq.1, Subtype.ext heq.2.1, heq.2.2⟩

theorem colons_ne_federation (realm : Realm) (uid : Uid) (purpose r u e p : String) :
    realm.val ++ ":" ++ uid.val ++ purpose ≠ csrfSubject r u e p := by
  intro h
  apply federation_no_colon r u e p
  rw [← h]
  simp

/-- No two forms have one subject. -/
theorem Context.subject_injective : Function.Injective Context.subject := by
  intro c c' h
  have hlogin : ':' ∉ "login".toList := by decide
  have hconsent : ':' ∉ "consent".toList := by decide
  cases c with
  | login realm uid =>
    cases c' with
    | login realm' uid' =>
      obtain ⟨rfl, rfl, -⟩ := toList_colons_inj hlogin hlogin h
      rfl
    | consent realm' uid' =>
      obtain ⟨-, -, hpurpose⟩ := toList_colons_inj hlogin hconsent h
      exact absurd hpurpose (by decide)
    | federation realm' uid' extension' provider' =>
      exact absurd h (colons_ne_federation realm uid ":login" _ _ _ _)
  | consent realm uid =>
    cases c' with
    | login realm' uid' =>
      obtain ⟨-, -, hpurpose⟩ := toList_colons_inj hconsent hlogin h
      exact absurd hpurpose (by decide)
    | consent realm' uid' =>
      obtain ⟨rfl, rfl, -⟩ := toList_colons_inj hconsent hconsent h
      rfl
    | federation realm' uid' extension' provider' =>
      exact absurd h (colons_ne_federation realm uid ":consent" _ _ _ _)
  | federation realm uid extension provider =>
    cases c' with
    | login realm' uid' => exact absurd h.symm (colons_ne_federation realm' uid' ":login" _ _ _ _)
    | consent realm' uid' =>
      exact absurd h.symm (colons_ne_federation realm' uid' ":consent" _ _ _ _)
    | federation realm' uid' extension' provider' =>
      obtain ⟨hrealm, huid, hprovider⟩ := federation_plain realm uid provider
      obtain ⟨hrealm', huid', hprovider'⟩ := federation_plain realm' uid' provider'
      have hbytes := congrArg String.toList h
      rw [Context.subject, Context.subject, toList_csrfSubject, toList_csrfSubject,
        List.append_cancel_left_eq] at hbytes
      have hjson := Text.utf8_ascii_inj
        (isAscii_stringifyArray hrealm huid extension.plain hprovider)
        (isAscii_stringifyArray hrealm' huid' extension'.plain hprovider')
        (Base64.encode_injective hbytes)
      have htexts := Scim.stringifyArray_injective hjson
      simp only [List.cons.injEq, and_true] at htexts
      obtain ⟨h1, h2, h3, h4⟩ := htexts
      rw [Subtype.ext h1, Subtype.ext h2, Subtype.ext h3, Subtype.ext h4]

end AuthMe.Csrf
