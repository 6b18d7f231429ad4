import AuthMe.Ldap.Grammar
import AuthMe.Text

/-!
# The search for a user

`escapeLdapFilterValue` and `userFilter` of `src/src/federation/ldap.js`. `no_injection`: the escaped login
stands for the UTF-8 bytes of the login, and the search filter has one derivation, for the test of the
object class and of the login attributes that are configured.

A login is the list of its UTF-16 code units. `Buffer.from` encodes half a surrogate pair as U+FFFD, which
is what `Text.wellFormed` does.
-/

namespace AuthMe.Ldap

/-! ## Configuration -/

/-- `/^[a-zA-Z][a-zA-Z0-9-]{0,63}$/`. -/
def isAttributeName (s : String) : Bool := isDescr s.toList && s.toList.length ≤ 64

abbrev AttributeName := { s : String // isAttributeName s = true }

def attributeName (s : String) : Option AttributeName :=
  if h : isAttributeName s = true then some ⟨s, h⟩ else none

/-- What the search reads of a provider. -/
structure Provider where
  userObjectClass : AttributeName
  loginAttributes : List AttributeName
  supplied : loginAttributes ≠ []
  distinct : loginAttributes.Nodup

theorem eraseDups_ne_nil {α : Type} [BEq α] [LawfulBEq α] {l : List α}
    (h : l ≠ []) : l.eraseDups ≠ [] := by
  obtain ⟨a, l, rfl⟩ := List.exists_cons_of_ne_nil h
  simp [List.eraseDups_cons]

theorem nodup_eraseDups {α : Type} [BEq α] [LawfulBEq α] (l : List α) : l.eraseDups.Nodup := by
  induction hn : l.length using Nat.strong_induction_on generalizing l with
  | _ n ih =>
    cases l with
    | nil => exact List.nodup_nil
    | cons a l =>
      rw [List.eraseDups_cons]
      have hlength := List.length_filter_le (fun b => !b == a) l
      refine List.nodup_cons.mpr ⟨?_, ih _ (by rw [← hn, List.length_cons]; omega) _ rfl⟩
      rw [List.mem_eraseDups, List.mem_filter]
      simp

/-- The part of `parseLdapProviders` about the search. -/
def parseProvider (user_object_class : Option String) (login_attributes : Option (List String)) :
    Option Provider :=
  let attributes := login_attributes.getD ["uid", "mail", "userPrincipalName", "sAMAccountName"]
  if attributes.length ≤ 5 then
    match attributeName (user_object_class.getD "person"), attributes.mapM attributeName with
    | some userObjectClass, some names =>
      if h : names ≠ [] then
        some ⟨userObjectClass, names.eraseDups, eraseDups_ne_nil h, nodup_eraseDups names⟩
      else none
    | _, _ => none
  else none

/-- The defaults pass the checks. -/
example : (parseProvider none none).isSome = true := by decide

/-! ## The filter -/

/-- `Buffer.from(login, 'utf8')`. -/
def bytes (login : List Nat) : Octets := utf8 (Text.wellFormed login).toList

/-- `byte.toString(16).padStart(2, '0')`. -/
def hex (byte : UInt8) : List Char := (Nat.toDigits 16 byte.toNat).leftpad 2 '0'

def escapeByte (byte : UInt8) : List Char :=
  if byte < 0x20 || 0x7e < byte || [0x2a, 0x28, 0x29, 0x5c].contains byte then '\\' :: hex byte
  else [Char.ofNat byte.toNat]

def escapeLdapFilterValue (input : List Nat) : String :=
  String.ofList ((bytes input).flatMap escapeByte)

def userFilter (provider : Provider) (login : List Nat) : String :=
  let escaped := escapeLdapFilterValue login
  let alternatives := provider.loginAttributes.map fun name =>
    "(" ++ name.val ++ "=" ++ escaped ++ ")"
  "(&(objectClass=" ++ provider.userObjectClass.val ++ ")(|" ++ String.join alternatives ++ "))"

example : escapeByte 0x2a = ['\\', '2', 'a'] := by decide

/-- `trim()`, of code units. -/
def trim (login : List Nat) : List Nat :=
  let isWhiteSpace (u : Nat) : Bool := Text.isWhiteSpace (Text.single u)
  ((login.dropWhile isWhiteSpace).reverse.dropWhile isWhiteSpace).reverse

/-- The filter that `authenticateLdapProvider` searches with. -/
def searchFilter (provider : Provider) (login secret : List Nat) : Option String :=
  if trim login = [] ∨ secret = [] then none else some (userFilter provider (trim login))

/-- The filter that is meant. -/
def intended (provider : Provider) (login : Octets) : Filter :=
  .and [.equality "objectClass" (utf8 provider.userObjectClass.val.toList),
    .or (provider.loginAttributes.map fun name => .equality name.val login)]

/-! ## Escapes -/

theorem hex_eq {n : Nat} (h : n < 256) :
    (Nat.toDigits 16 n).leftpad 2 '0' = [Nat.digitChar (n / 16), Nat.digitChar (n % 16)] := by
  revert n
  decide +kernel

theorem hexDigit_digitChar {n : Nat} (h : n < 16) : hexDigit (Nat.digitChar n) = some n := by
  revert n
  decide

/-- A byte that is not escaped is a printable character of its own. -/
theorem printable {n : Nat} (h : n < 0x7f) (hlow : 0x20 ≤ n) (hspecial : n ∉ [0x2a, 0x28, 0x29, 0x5c]) :
    isSpecial (Char.ofNat n) = false ∧ String.utf8EncodeChar (Char.ofNat n) = [UInt8.ofNat n] := by
  revert n
  decide

theorem decodeValue_escapeByte (byte : UInt8) (rest : List Char) :
    decodeValue (escapeByte byte ++ rest) = (decodeValue rest).map (byte :: ·) := by
  have hbyte : byte.toNat < 256 := byte.toNat_lt
  unfold escapeByte
  split
  · rw [hex, hex_eq hbyte]
    have hback : UInt8.ofNat (16 * (byte.toNat / 16) + byte.toNat % 16) = byte := by
      rw [Nat.div_add_mod, UInt8.ofNat_toNat]
    simp only [List.cons_append, List.nil_append, decodeValue,
      hexDigit_digitChar (show byte.toNat / 16 < 16 by omega),
      hexDigit_digitChar (show byte.toNat % 16 < 16 by omega), hback]
  · rename_i hplain
    simp only [Bool.or_eq_true, decide_eq_true_eq, not_or, UInt8.not_lt, List.contains_iff_mem] at hplain
    obtain ⟨⟨hlow, hhigh⟩, hmem⟩ := hplain
    have hlow' : 0x20 ≤ byte.toNat := UInt8.le_iff_toNat_le.mp hlow
    have hhigh' : byte.toNat < 0x7f := Nat.lt_succ_of_le (UInt8.le_iff_toNat_le.mp hhigh)
    have hmem' : byte.toNat ∉ [0x2a, 0x28, 0x29, 0x5c] := by
      intro h
      have := List.mem_map_of_mem (f := UInt8.ofNat) h
      rw [UInt8.ofNat_toNat] at this
      exact hmem this
    obtain ⟨hspecial, hencode⟩ := printable hhigh' hlow' hmem'
    have hescape : Char.ofNat byte.toNat ≠ '\\' := by
      intro h
      rw [h] at hspecial
      exact absurd hspecial (by decide)
    rw [List.singleton_append, decodeValue, if_neg (by simp [hspecial]), hencode, UInt8.ofNat_toNat]
    · rfl
    · exact fun _ _ _ h => absurd h hescape

/-- An escaped login stands for the bytes of the login. -/
theorem decodeValue_escape (login : List Nat) :
    decodeValue (escapeLdapFilterValue login).toList = some (bytes login) := by
  rw [escapeLdapFilterValue, String.toList_ofList]
  induction bytes login with
  | nil => rfl
  | cons byte rest ih => rw [List.flatMap_cons, decodeValue_escapeByte, ih, Option.map_some]

/-! ## The filter that is built -/

theorem AttributeName.attr (name : AttributeName) : Attr name.val.toList := by
  have h := name.property
  simp only [isAttributeName, Bool.and_eq_true] at h
  exact attr_of_descr h.1

/-- The name of an object class stands for itself. -/
theorem AttributeName.value (name : AttributeName) :
    decodeValue name.val.toList = some (utf8 name.val.toList) := by
  have hkey : ∀ c ∈ name.val.toList, isKeyChar c = true := by
    have h := name.property
    simp only [isAttributeName, Bool.and_eq_true] at h
    cases hname : name.val.toList with
    | nil => nofun
    | cons d rest =>
      rw [hname] at h
      simp only [isDescr, Bool.and_eq_true, List.all_eq_true] at h
      intro c hc
      rcases List.mem_cons.mp hc with rfl | hc
      · exact isAlpha_isKeyChar h.1.1
      · exact h.1.2 c hc
  generalize name.val.toList = s at hkey
  induction s with
  | nil => rfl
  | cons c s ih =>
    have hc := hkey c List.mem_cons_self
    have hescape : c ≠ '\\' := by
      rintro rfl
      exact absurd hc (by decide)
    have hspecial : isSpecial c = false := by
      cases h : isSpecial c with
      | false => rfl
      | true =>
        simp only [isSpecial, List.contains_iff_mem, List.mem_cons, List.not_mem_nil, or_false] at h
        rcases h with rfl | rfl | rfl | rfl | rfl <;> exact absurd hc (by decide)
    rw [decodeValue, if_neg (by simp [hspecial]), ih fun d hd => hkey d (List.mem_cons_of_mem _ hd)]
    · rfl
    · exact fun _ _ _ h => absurd h hescape

/-- The alternatives denote the tests of the attributes, one by one. -/
theorem denotes_alternatives (names : List AttributeName) (login : List Nat) :
    List.Forall₂ Denotes
      (names.map fun name => '(' :: (name.val.toList ++ '=' :: (escapeLdapFilterValue login).toList ++ [')']))
      (names.map fun name => .equality name.val (bytes login)) := by
  induction names with
  | nil => exact .nil
  | cons name names ih =>
    refine .cons ?_ ih
    have h := denotes_equality name.attr (decodeValue_escape login)
    rwa [String.ofList_toList] at h

theorem toList_join_map {α : Type} (l : List α) (f : α → String) :
    (String.join (l.map f)).toList = (l.map fun a => (f a).toList).flatten := by
  rw [String.toList_join, List.flatMap_map]
  exact List.flatMap_def

theorem userFilter_toList (provider : Provider) (login : List Nat) :
    (userFilter provider login).toList = '(' :: ('&' ::
      ['(' :: ("objectClass".toList ++ '=' :: provider.userObjectClass.val.toList ++ [')']),
        '(' :: ('|' :: (provider.loginAttributes.map fun name =>
          '(' :: (name.val.toList ++ '=' :: (escapeLdapFilterValue login).toList ++ [')'])).flatten ++
            [')'])].flatten ++ [')']) := by
  have htest : (fun name : AttributeName =>
        ("(" ++ name.val ++ "=" ++ escapeLdapFilterValue login ++ ")").toList) = fun name =>
      '(' :: (name.val.toList ++ '=' :: (escapeLdapFilterValue login).toList ++ [')']) := by
    funext name
    simp only [String.toList_append]
    simp
  have hclass : "(&(objectClass=".toList = '(' :: '&' :: '(' :: "objectClass".toList ++ ['='] := by
    decide
  unfold userFilter
  rw [String.toList_append, String.toList_append, String.toList_append, String.toList_append,
    toList_join_map, htest, hclass]
  generalize (provider.loginAttributes.map _).flatten = alternatives
  simp

theorem denotes_userFilter (provider : Provider) (login : List Nat) :
    Denotes (userFilter provider login).toList (intended provider (bytes login)) := by
  rw [userFilter_toList]
  have hclass : Attr "objectClass".toList := attr_of_descr (by decide)
  have hobject := denotes_equality hclass provider.userObjectClass.value
  rw [String.ofList_toList] at hobject
  refine denotes_and (.cons hobject (.cons ?_ .nil)) (by simp)
  exact denotes_or (denotes_alternatives _ _) (List.map_eq_nil_iff.not.mpr provider.supplied)

/-- **A login neither adds nor changes a component of the filter.** -/
theorem no_injection (provider : Provider) (login : List Nat) :
    decodeValue (escapeLdapFilterValue login).toList = some (bytes login) ∧
      Denotes (userFilter provider login).toList (intended provider (bytes login)) :=
  ⟨decodeValue_escape login, denotes_userFilter provider login⟩

/-- The search of a login that is accepted, which is for the login without blanks around it. -/
theorem denotes_search {provider : Provider} {login secret : List Nat} {text : String}
    (h : searchFilter provider login secret = some text) :
    Denotes text.toList (intended provider (bytes (trim login))) := by
  unfold searchFilter at h
  split at h
  · cases h
  · cases h
    exact denotes_userFilter provider _

end AuthMe.Ldap
