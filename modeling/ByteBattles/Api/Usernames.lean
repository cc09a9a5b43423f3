import ByteBattles.Api.Identifiers
import ByteBattles.Lib.Regex

/-!
# Usernames

The patterns of `api/app/schemas/user.py` as `re.match` reads them, and which usernames
pass the validators and are stored.
-/

namespace ByteBattles.Api

open ByteBattles.Lib

open Regex (Run)

/-! ## The patterns -/

/-- `[a-zA-Z0-9_]`, range by range. -/
def usernameChar (c : Char) : Bool :=
  ('a' ≤ c ∧ c ≤ 'z') ∨ ('A' ≤ c ∧ c ≤ 'Z') ∨ ('0' ≤ c ∧ c ≤ '9') ∨ c = '_'

/-- `^[a-zA-Z0-9_]{3,20}$` -/
def USERNAME_REGEX : Regex := .start (.run usernameChar 3 (some 20) (.finish .done))

def dot (c : Char) : Bool := c != '\n'

def letter (c : Char) : Bool := ('A' ≤ c ∧ c ≤ 'Z') ∨ ('a' ≤ c ∧ c ≤ 'z')

def decimalDigit (c : Char) : Bool := (PyNumber.digit c).isSome

/-- `^(?=.*[A-Za-z])(?=.*\d).{8,}$` -/
def PASSWORD_REGEX : Regex :=
  .start (.ahead (.run dot 0 none (.run letter 1 (some 1) .done))
    (.ahead (.run dot 0 none (.run decimalDigit 1 (some 1) .done))
      (.run dot 8 none (.finish .done))))

theorem isAlpha_iff (c : Char) :
    c.isAlpha = true ↔ ('A' ≤ c ∧ c ≤ 'Z') ∨ ('a' ≤ c ∧ c ≤ 'z') := by
  have hupper : c.isUpper = true ↔ 'A' ≤ c ∧ c ≤ 'Z' := decide_eq_true_iff
  have hlower : c.isLower = true ↔ 'a' ≤ c ∧ c ≤ 'z' :=
    Bool.and_eq_true_iff.trans (and_congr decide_eq_true_iff decide_eq_true_iff)
  rw [← hupper, ← hlower]
  exact Bool.or_eq_true_iff

theorem isWord_eq : isWord = usernameChar := by
  funext c
  rw [Bool.eq_iff_iff]
  simp only [isWord, usernameChar, Char.isAlphanum, isAlpha_iff, Char.isDigit, Bool.or_eq_true,
    Bool.and_eq_true, decide_eq_true_eq, beq_iff_eq, ge_iff_le, Char.le_def]
  tauto

theorem isAlpha_eq : Char.isAlpha = letter := by
  funext c
  rw [Bool.eq_iff_iff]
  simp only [isAlpha_iff, letter, decide_eq_true_eq]

theorem beforeEnd_iff {p : Str → Bool} {s : Str} :
    beforeEnd p s = true ↔ ∃ t, p t = true ∧ (s = t ∨ s = t ++ ['\n']) := by
  simp only [beforeEnd, Bool.or_eq_true, Bool.and_eq_true, beq_iff_eq]
  constructor
  · rintro (hp | ⟨hlast, hp⟩)
    · exact ⟨s, hp, .inl rfl⟩
    · obtain ⟨t, rfl⟩ := List.getLast?_eq_some_iff.mp hlast
      rw [List.dropLast_concat] at hp
      exact ⟨t, hp, .inr rfl⟩
  · rintro ⟨t, hp, rfl | rfl⟩
    · exact .inl hp
    · rw [List.dropLast_concat]
      exact .inr ⟨List.getLast?_concat, hp⟩

/-- The validator of usernames is its regular expression. -/
theorem matchesUsername_eq (s : Str) : matchesUsername s = USERNAME_REGEX.accepts s := by
  have hrun : ∀ t : Str, (decide (3 ≤ t.length) && decide (t.length ≤ 20) && t.all isWord) = true ↔
      Run usernameChar 3 (some 20) t := by
    intro t
    simp only [Bool.and_eq_true, decide_eq_true_eq, List.all_eq_true, isWord_eq]
    constructor
    · rintro ⟨⟨hlo, hhi⟩, hall⟩
      exact ⟨hlo, fun n hn => Option.some.inj hn ▸ hhi, hall⟩
    · rintro ⟨hlo, hhi, hall⟩
      exact ⟨⟨hlo, hhi 20 rfl⟩, hall⟩
  rw [Bool.eq_iff_iff, matchesUsername, USERNAME_REGEX, Regex.accepts, Regex.matchFrom_start,
    Regex.matchFrom_run_finish, beforeEnd_iff]
  simp only [hrun, true_and]

/-- What a lookahead of the password finds is not in the newline that may end it. -/
theorem find_in_run {p : Char → Bool} (hp : p '\n' = false) {s t : Str}
    (ht : ∀ c ∈ t, dot c = true) (hs : s = t ∨ s = t ++ ['\n']) :
    (∃ a c u, s = a ++ c :: u ∧ (∀ d ∈ a, dot d = true) ∧ p c = true) ↔ ∃ c ∈ t, p c = true := by
  constructor
  · rintro ⟨a, c, u, hsplit, -, hc⟩
    have hmem : c ∈ s := hsplit ▸ List.mem_append_right a (List.mem_cons_self ..)
    rcases hs with rfl | rfl
    · exact ⟨c, hmem, hc⟩
    · rcases List.mem_append.mp hmem with hmem | hmem
      · exact ⟨c, hmem, hc⟩
      · rw [List.mem_singleton.mp hmem, hp] at hc
        cases hc
  · rintro ⟨c, hmem, hc⟩
    obtain ⟨a, u, rfl⟩ := List.append_of_mem hmem
    have ha : ∀ d ∈ a, dot d = true := fun d hd => ht d (List.mem_append_left _ hd)
    rcases hs with rfl | rfl
    · exact ⟨a, c, u, rfl, ha, hc⟩
    · exact ⟨a, c, u ++ ['\n'], by simp, ha, hc⟩

/-- The validator of passwords is its regular expression. -/
theorem matchesPassword_eq (s : Str) : matchesPassword s = PASSWORD_REGEX.accepts s := by
  have hrun : ∀ t : Str, (decide (8 ≤ t.length) && t.all (· != '\n') && t.any Char.isAlpha &&
      t.any fun c => (PyNumber.digit c).isSome) = true ↔
      Run dot 8 none t ∧ (∃ c ∈ t, letter c = true) ∧ ∃ c ∈ t, decimalDigit c = true := by
    intro t
    simp only [Bool.and_eq_true, decide_eq_true_eq, List.all_eq_true, List.any_eq_true, isAlpha_eq]
    constructor
    · rintro ⟨⟨⟨hlo, hall⟩, hletter⟩, hdigit⟩
      exact ⟨⟨hlo, by simp, hall⟩, hletter, hdigit⟩
    · rintro ⟨⟨hlo, -, hall⟩, hletter, hdigit⟩
      exact ⟨⟨⟨hlo, hall⟩, hletter⟩, hdigit⟩
  rw [Bool.eq_iff_iff, matchesPassword, PASSWORD_REGEX, beforeEnd_iff, Regex.accepts,
    Regex.matchFrom_start, Regex.matchFrom_ahead, Regex.matchFrom_ahead, Regex.matchFrom_find,
    Regex.matchFrom_find, Regex.matchFrom_run_finish]
  simp only [hrun, true_and]
  constructor
  · rintro ⟨t, ⟨ht, hletter, hdigit⟩, hs⟩
    exact ⟨(find_in_run (by decide) ht.all hs).mpr hletter,
      (find_in_run (by decide) ht.all hs).mpr hdigit, t, ht, hs⟩
  · rintro ⟨hletter, hdigit, t, ht, hs⟩
    exact ⟨t, ⟨ht, (find_in_run (by decide) ht.all hs).mp hletter,
      (find_in_run (by decide) ht.all hs).mp hdigit⟩, hs⟩

/-! ## What is accepted -/

def IsUsername (s : Str) : Prop :=
  3 ≤ s.length ∧ s.length ≤ 20 ∧ ∀ c ∈ s, usernameChar c = true

instance (s : Str) : Decidable (IsUsername s) :=
  decidable_of_iff (3 ≤ s.length ∧ s.length ≤ 20 ∧ s.all usernameChar = true)
    (by rw [IsUsername, List.all_eq_true])

def HasFinalNewline (s : Str) : Prop := ∃ t, IsUsername t ∧ s = t ++ ['\n']

theorem run_iff {s : Str} : Run usernameChar 3 (some 20) s ↔ IsUsername s := by
  constructor
  · rintro ⟨hlo, hhi, hall⟩
    exact ⟨hlo, hhi 20 rfl, hall⟩
  · rintro ⟨hlo, hhi, hall⟩
    exact ⟨hlo, fun n hn => Option.some.inj hn ▸ hhi, hall⟩

theorem matchesUsername_iff {s : Str} :
    matchesUsername s = true ↔ IsUsername s ∨ HasFinalNewline s := by
  rw [matchesUsername_eq, USERNAME_REGEX, Regex.accepts, Regex.matchFrom_start,
    Regex.matchFrom_run_finish]
  simp only [run_iff, true_and]
  constructor
  · rintro ⟨t, ht, rfl | rfl⟩
    · exact .inl ht
    · exact .inr ⟨t, ht, rfl⟩
  · rintro (hs | ⟨t, ht, rfl⟩)
    · exact ⟨s, hs, .inl rfl⟩
    · exact ⟨t, ht, .inr rfl⟩

theorem not_isUsername_of_newline {s : Str} (h : HasFinalNewline s) : ¬ IsUsername s := by
  obtain ⟨t, -, rfl⟩ := h
  rintro ⟨-, -, hall⟩
  exact absurd (hall '\n' (by simp)) (by decide)

/-- The pattern accepts the grammar except where it overlooks a newline. -/
theorem exact_iff {s : Str} :
    (matchesUsername s = true ↔ IsUsername s) ↔ ¬ HasFinalNewline s := by
  rw [matchesUsername_iff]
  constructor
  · intro hexact hnewline
    exact not_isUsername_of_newline hnewline (hexact.mp (.inr hnewline))
  · intro hnewline
    simp [hnewline]

theorem Username.isSome_ofStr {s : Str} :
    (Username.ofStr s).isSome = true ↔ matchesUsername s = true := by
  unfold Username.ofStr
  split
  case isTrue h => simp [h]
  case isFalse h => simp [h]

variable {lib : Libraries}

/-- With the other fields accepted, a body is accepted if its username is. -/
theorem UserCreateBody.isSome_validate {body : UserCreateBody}
    (hemail : (lib.emailStr body.email).isSome = true)
    (hpassword : (Password.ofStr body.password).isSome = true) :
    (body.validate lib).isSome = true ↔ matchesUsername body.username = true := by
  obtain ⟨email, hemail⟩ := Option.isSome_iff_exists.mp hemail
  obtain ⟨password, hpassword⟩ := Option.isSome_iff_exists.mp hpassword
  rw [← Username.isSome_ofStr, validate, hemail, hpassword]
  cases Username.ofStr body.username with
  | none => rfl
  | some username => rfl

theorem UserUpdateBody.isSome_validate {body : UserUpdateBody} {s : Str}
    (husername : body.username = some s)
    (hemail : (optional lib.emailStr body.email).isSome = true)
    (hpassword : (optional Password.ofStr body.password).isSome = true) :
    (body.validate lib).isSome = true ↔ matchesUsername s = true := by
  obtain ⟨email, hemail⟩ := Option.isSome_iff_exists.mp hemail
  obtain ⟨password, hpassword⟩ := Option.isSome_iff_exists.mp hpassword
  rw [← Username.isSome_ofStr, validate, husername, hemail, hpassword, optional]
  cases Username.ofStr s with
  | none => rfl
  | some username => rfl

/-! ## What is stored -/

def Request.newUsername : Request → Option Str
  | .register body => some body.username
  | .updateCurrentUser _ updates => updates.username
  | _ => none

def Action.WithoutNewline : Action → Prop
  | .request _ r => ∀ s, r.newUsername = some s → ¬ HasFinalNewline s
  | _ => True

def UsernamesValid (s : Store) : Prop := ∀ user ∈ s.users, IsUsername user.username

variable {cfg : Config} {env : Environment} {s t : Store} {st st' : State}

theorem Username.isUsername {username : Username} (h : ¬ HasFinalNewline username.text) :
    IsUsername username.text := by
  rcases matchesUsername_iff.mp username.matched with hform | hnewline
  · exact hform
  · exact absurd hnewline h

theorem Username.ofStr_eq_some {s : Str} {username : Username} (h : ofStr s = some username) :
    username.text = s := by
  unfold ofStr at h
  split at h
  case isTrue => exact Option.some.inj h ▸ rfl
  case isFalse => cases h

theorem UserCreateBody.validate_username {body : UserCreateBody} {new_user : UserCreate}
    (h : body.validate lib = some new_user) : new_user.username.text = body.username := by
  obtain ⟨username, husername, h⟩ := Option.bind_eq_some_iff.mp h
  obtain ⟨email, -, h⟩ := Option.bind_eq_some_iff.mp h
  obtain ⟨password, -, h⟩ := Option.bind_eq_some_iff.mp h
  obtain rfl := Option.some.inj h
  exact Username.ofStr_eq_some husername

theorem UserUpdateBody.validate_username {body : UserUpdateBody} {updates : UserUpdate}
    (h : body.validate lib = some updates) :
    updates.username.map (·.text) = body.username := by
  obtain ⟨username, husername, h⟩ := Option.bind_eq_some_iff.mp h
  obtain ⟨email, -, h⟩ := Option.bind_eq_some_iff.mp h
  obtain ⟨password, -, h⟩ := Option.bind_eq_some_iff.mp h
  obtain rfl := Option.some.inj h
  cases hbody : body.username with
  | none =>
      rw [hbody] at husername
      obtain rfl := Option.some.inj husername
      rfl
  | some s =>
      rw [hbody] at husername
      obtain ⟨u, hu, rfl⟩ := Option.map_eq_some_iff.mp husername
      exact congrArg some (Username.ofStr_eq_some hu)

theorem changedUsername_form {users : List User} {current_user : User}
    {username : Option Username} {text : Str}
    (h : changedUsername users current_user username = .ok text)
    (hcurrent : IsUsername current_user.username)
    (hnew : ∀ u, username = some u → IsUsername u.text) : IsUsername text := by
  cases username with
  | none =>
      obtain rfl := Except.ok.inj h
      exact hcurrent
  | some u =>
      rw [changedUsername] at h
      split at h
      case isTrue => cases h
      case isFalse =>
        obtain rfl := Except.ok.inj h
        exact hnew u rfl

theorem UsernamesValid.effect (h : UsernamesValid s) {request : Request}
    (hrequest : ∀ u, request.newUsername = some u → ¬ HasFinalNewline u)
    (heffect : Effect lib env s request t) : UsernamesValid t := by
  cases heffect with
  | unchanged => exact h
  | @registered body new_user hvalid husername hemail =>
      have htext := UserCreateBody.validate_username hvalid
      intro user huser
      rcases List.mem_append.mp huser with huser | huser
      · exact h user huser
      · rw [List.mem_singleton.mp huser]
        exact Username.isUsername (htext ▸ hrequest body.username rfl)
  | @updated token body updates current_user user hauth hvalid hchanged =>
      have htext := UserUpdateBody.validate_username hvalid
      obtain ⟨_, payload, -, -, hfound⟩ := getCurrentUser_eq_ok.mp hauth
      have hcurrent := h current_user (userById_eq_some hfound).1
      obtain ⟨_, -, husername, -, -⟩ := changedUser_eq_ok hchanged
      have hform : IsUsername user.username := by
        apply changedUsername_form husername hcurrent
        intro u hu
        rw [hu, Option.map_some] at htext
        exact Username.isUsername (hrequest u.text htext.symm)
      intro u hu
      rcases Table.mem_replace hu with rfl | ⟨hu, -⟩
      · exact hform
      · exact h u hu
  | userDeleted hauth => exact fun user huser => h user (List.mem_of_mem_filter huser)
  | submission hauth houtcome => cases houtcome <;> exact h
  | _ => exact h

theorem usernamesValid_of_reachable
    (h : (system lib cfg).ReachableUnder (fun _ a => a.WithoutNewline) st) :
    UsernamesValid st.store := by
  refine System.PreservedUnder.invariant (I := fun st => UsernamesValid st.store) ?_ ?_ h
  · intro st st' a _ hst ha hstep
    cases moves_of_step hstep with
    | request hnow htoken hserve heffect => exact hst.effect ha heffect
    | promote id =>
        show ∀ user ∈ (st.store.promote id).users, IsUsername user.username
        simpa [promote_users, UsernamesValid] using hst
    | pick | requeue | judged => exact hst
  · rintro _ rfl user huser
    cases huser

/-! ## The result -/

/-- **The usernames that are accepted**: `UserCreate` and `UserUpdate` accept exactly the
usernames of the grammar, except where a username is followed by one newline; and in runs
without such requests only usernames of the grammar are stored. -/
theorem username_accepted_iff (lib : Libraries) (cfg : Config) :
    (∀ body : UserCreateBody, (lib.emailStr body.email).isSome = true →
      (Password.ofStr body.password).isSome = true →
        (((body.validate lib).isSome = true ↔ IsUsername body.username) ↔
          ¬ HasFinalNewline body.username)) ∧
    (∀ (body : UserUpdateBody) (s : Str), body.username = some s →
      (optional lib.emailStr body.email).isSome = true →
      (optional Password.ofStr body.password).isSome = true →
        (((body.validate lib).isSome = true ↔ IsUsername s) ↔ ¬ HasFinalNewline s)) ∧
    ∀ st, (system lib cfg).ReachableUnder (fun _ a => a.WithoutNewline) st →
      ∀ user ∈ st.store.users, IsUsername user.username := by
  refine ⟨fun body hemail hpassword => ?_, fun body s husername hemail hpassword => ?_,
    fun st h => usernamesValid_of_reachable h⟩
  · rw [UserCreateBody.isSome_validate hemail hpassword]
    exact exact_iff
  · rw [UserUpdateBody.isSome_validate husername hemail hpassword]
    exact exact_iff

theorem username_accepted_ann :
    (ann.validate plain).isSome = true ↔ IsUsername ann.username := by
  refine ((username_accepted_iff plain halfHour).1 ann (by decide) (by decide)).mpr ?_
  rintro ⟨t, -, ht⟩
  have hlast := congrArg List.getLast? ht
  rw [List.getLast?_concat] at hlast
  exact absurd hlast (by decide)

def annLine : UserCreateBody := { ann with username := "ann\n".toList }

theorem not_isUsername_annLine :
    (annLine.validate plain).isSome = true ∧ ¬ IsUsername annLine.username ∧
      ∃ st, (system plain halfHour).Reachable st ∧
        ∃ user ∈ st.store.users, ¬ IsUsername user.username := by
  refine ⟨by decide, by decide, ?_⟩
  obtain ⟨st, hpath, hstored⟩ :=
    System.exists_path (system plain halfHour) (fun _ _ => True) start
      [.request (quiet 1 CreateProblem.zeros) (.register annLine)]
      (fun st => ∃ user ∈ st.store.users, ¬ IsUsername user.username) (by decide)
  exact ⟨st, ⟨start, rfl, hpath⟩, hstored⟩

end ByteBattles.Api
