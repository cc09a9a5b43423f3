import ByteBattles.Api.Models
import ByteBattles.Lib.PyNumber

/-!
# What the schemas accept

The validators of `api/app/schemas/user.py` and the bounds of the page parameters.  A
text that has passed its validator carries the proof.
-/

namespace ByteBattles.Api

open ByteBattles.Lib

/-! ## Patterns -/

/-- `[a-zA-Z0-9_]`. -/
def isWord (c : Char) : Bool := c.isAlphanum || c == '_'

/-- `$` matches at the end, and before a newline that ends the text. -/
def beforeEnd (p : Str → Bool) (s : Str) : Bool :=
  p s || (s.getLast? == some '\n' && p s.dropLast)

/-- `re.match(USERNAME_REGEX, v)`. -/
def matchesUsername : Str → Bool :=
  beforeEnd fun s => 3 ≤ s.length && s.length ≤ 20 && s.all isWord

/-- `re.match(PASSWORD_REGEX, v)`; a dot matches no newline, `\d` any decimal digit. -/
def matchesPassword : Str → Bool :=
  beforeEnd fun s => 8 ≤ s.length && s.all (· != '\n') && s.any Char.isAlpha &&
    s.any fun c => (PyNumber.digit c).isSome

structure Username where
  text : Str
  matched : matchesUsername text = true

structure Password where
  text : Str
  matched : matchesPassword text = true

/-- An address that `EmailStr` accepts. -/
structure EmailStr where
  text : Str
  at_mem : '@' ∈ text

def Username.ofStr (s : Str) : Option Username :=
  if h : matchesUsername s = true then some ⟨s, h⟩ else none

def Password.ofStr (s : Str) : Option Password :=
  if h : matchesPassword s = true then some ⟨s, h⟩ else none

theorem not_mem_of_beforeEnd {p : Str → Bool} {c : Char} {s : Str} (hc : c ≠ '\n')
    (hp : ∀ t, p t = true → c ∉ t) (h : beforeEnd p s = true) : c ∉ s := by
  simp only [beforeEnd, Bool.or_eq_true, Bool.and_eq_true, beq_iff_eq] at h
  rcases h with h | ⟨hlast, h⟩
  · exact hp s h
  · obtain ⟨t, rfl⟩ := List.getLast?_eq_some_iff.mp hlast
    rw [List.dropLast_concat] at h
    simpa [hc] using hp t h

/-- A username is no address. -/
theorem Username.at_not_mem (u : Username) : '@' ∉ u.text := by
  apply not_mem_of_beforeEnd (by decide) ?_ u.matched
  intro t ht hmem
  simp only [Bool.and_eq_true, List.all_eq_true] at ht
  have hword := ht.2 '@' hmem
  revert hword
  decide

/-! ## Bodies -/

/-- The services that the routes get from libraries: the validator of addresses, which
normalises them, and the password hasher, whose salt is drawn for each hash. -/
structure Libraries where
  emailStr : Str → Option EmailStr
  hash : Nat → Str → Str
  verify : Str → Str → Bool

structure UserCreateBody where
  username : Str
  email : Str
  password : Str
  conf_password : Str

structure UserCreate where
  username : Username
  email : EmailStr
  password : Password
  conf_password : Str

def UserCreateBody.validate (lib : Libraries) (body : UserCreateBody) : Option UserCreate := do
  let username ← Username.ofStr body.username
  let email ← lib.emailStr body.email
  let password ← Password.ofStr body.password
  return ⟨username, email, password, body.conf_password⟩

structure UserUpdateBody where
  username : Option Str
  email : Option Str
  password : Option Str
  conf_password : Option Str

structure UserUpdate where
  username : Option Username
  email : Option EmailStr
  password : Option Password
  conf_password : Option Str

def optional {α β : Type} (validate : α → Option β) : Option α → Option (Option β)
  | none => some none
  | some a => (validate a).map some

def UserUpdateBody.validate (lib : Libraries) (body : UserUpdateBody) : Option UserUpdate := do
  let username ← optional Username.ofStr body.username
  let email ← optional lib.emailStr body.email
  let password ← optional Password.ofStr body.password
  return ⟨username, email, password, body.conf_password⟩

/-- `page >= 1` and `5 <= limit <= 100`. -/
structure Page where
  page : Int
  limit : Int
  page_ge : 1 ≤ page
  limit_ge : 5 ≤ limit
  limit_le : limit ≤ 100

def Page.ofInts (page limit : Int) : Option Page :=
  if h : 1 ≤ page ∧ 5 ≤ limit ∧ limit ≤ 100 then some ⟨page, limit, h.1, h.2.1, h.2.2⟩ else none

def Page.of {α : Type} (p : Page) (rows : List α) : List α :=
  (rows.drop ((p.page - 1) * p.limit).toNat).take p.limit.toNat

end ByteBattles.Api
