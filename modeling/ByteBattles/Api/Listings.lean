import ByteBattles.Api.Visibility
import ByteBattles.Lib.Paging

/-!
# Pages of the listings

The two listing routes over a database that breaks ties of the `ORDER BY` in its own way,
another one for each query.
-/

namespace ByteBattles.Api

open ByteBattles.Lib

open Paging (OrderedBy SplitsAt slice pages)

variable {s : Store} {limit : Int}

/-! ## The routes over any order -/

/-- A way to break the ties of an `ORDER BY` on the key. -/
def Breaks {α κ : Type} [LinearOrder κ] (key : α → κ) (order : List α → List α) : Prop :=
  ∀ rows, OrderedBy key rows (order rows)

def latest (r : Submission) : Natᵒᵈ := OrderDual.toDual r.submitted_at

theorem breaks_byId : Breaks (·.id) byId := Paging.orderedBy_insertionSort (Problem.id ·)

theorem breaks_newestFirst : Breaks latest newestFirst := Paging.orderedBy_insertionSort latest

def Store.listedProblems (s : Store) (admin : Option User) : List Problem :=
  if admin.isSome then s.problems else s.problems.filter (·.visibility = true)

def getProblemsBy (order : List Problem → List Problem) (s : Store) (admin : Option User)
    (page limit : Int) : Except Error (List ProblemResponse) :=
  match Page.ofInts page limit with
  | none => .error .unprocessable
  | some page => .ok ((page.of (order (s.listedProblems admin))).map Problem.response)

def Store.listedSubmissions (s : Store) (viewer : Option User)
    (problem_id username : Option Str) : Except Error (User × List Submission) := do
  let user ← listedUser s.users username viewer
  let submissions ← s.submissionsOf user problem_id
  return (user, submissions)

def getSubmissionsBy (order : List Submission → List Submission) (s : Store)
    (viewer : Option User) (problem_id username : Option Str) (page limit : Int) :
    Except Error (List SubmissionHeaderResponse) :=
  match Page.ofInts page limit with
  | none => .error .unprocessable
  | some page => do
      let (user, submissions) ← s.listedSubmissions viewer problem_id username
      return (page.of (order submissions)).map (·.header user)

theorem getProblems_eq (now : Nat) (access_token : Option Token) (page limit : Int) :
    getProblems s now access_token page limit =
      getProblemsBy byId s (getOptionalCurrentAdmin s.users now access_token) page limit := rfl

theorem getSubmissions_eq (now : Nat) (access_token : Option Token)
    (problem_id username : Option Str) (page limit : Int) :
    getSubmissions s now access_token problem_id username page limit =
      getSubmissionsBy newestFirst s (getOptionalCurrentUser s.users now access_token)
        problem_id username page limit := by
  unfold getSubmissions getSubmissionsBy Store.listedSubmissions
  cases Page.ofInts page limit with
  | none => rfl
  | some page =>
      cases listedUser s.users username (getOptionalCurrentUser s.users now access_token) with
      | error e => rfl
      | ok user =>
          dsimp only [bind, Except.bind]
          cases s.submissionsOf user problem_id with
          | error e => rfl
          | ok submissions => rfl

/-! ## Complete listings -/

/-- Pages 1, 2, 3, … up to the end of a listing show every item once. -/
def ListsOnce {β : Type} (limit : Int) (page : Nat → Except Error (List β)) (items : List β) :
    Prop :=
  ∃ shown : Nat → List β, (∀ k : Nat, k * limit ≤ items.length → page k = .ok (shown k)) ∧
    ∀ n : Nat, items.length ≤ n * limit → (∀ k : Nat, k < n → k * limit ≤ items.length) →
      ((List.range n).flatMap shown).Perm items

/-- Submissions of one time stand on both sides of the end of a page. -/
def TieAcrossPages (limit : Int) (submissions : List Submission) : Prop :=
  ∃ k : Nat, SplitsAt latest submissions (k * limit.toNat)

theorem ofInts_eq_some (hlimit : 5 ≤ limit) (hlimit' : limit ≤ 100) (k : Nat) :
    ∃ page, Page.ofInts (k + 1) limit = some page ∧
      ∀ {α : Type} (rows : List α), page.of rows = slice limit.toNat k rows := by
  have hpage : (1 : Int) ≤ k + 1 := by omega
  refine ⟨⟨k + 1, limit, hpage, hlimit, hlimit'⟩, ?_, ?_⟩
  · rw [Page.ofInts, dif_pos ⟨hpage, hlimit, hlimit'⟩]
  · intro α rows
    have hoffset : (((k : Int) + 1 - 1) * limit).toNat = k * limit.toNat := by
      rw [Int.add_sub_cancel, Int.toNat_mul (by omega) (by omega), Int.toNat_natCast]
    simp only [Page.of, slice, hoffset]

theorem listsOnce_iff {α β : Type} (hlimit : 5 ≤ limit) {f : α → β} {rows : List α}
    {answers : Nat → List α} {page : Nat → Except Error (List β)}
    (hpage : ∀ k, page k = .ok ((slice limit.toNat k (answers k)).map f)) :
    ListsOnce limit page (rows.map f) ↔
      ∀ n, Paging.Covers limit.toNat rows.length n →
        ((pages limit.toNat answers n).map f).Perm (rows.map f) := by
  have hcast : ∀ n : Nat, (n : Int) * limit = (n * limit.toNat : Nat) := by
    intro n
    rw [Nat.cast_mul, Int.toNat_of_nonneg (by omega)]
  have hmap : ∀ n, (pages limit.toNat answers n).map f =
      (List.range n).flatMap fun k => (slice limit.toNat k (answers k)).map f := by
    intro n
    rw [pages, List.map_flatMap]
  unfold ListsOnce
  simp only [hcast, List.length_map, Nat.cast_le]
  constructor
  · rintro ⟨shown, hshown, hall⟩ n hn
    have heq : ∀ k ∈ List.range n, (slice limit.toNat k (answers k)).map f = shown k := by
      intro k hk
      have hbegins := hn.begins k (List.mem_range.mp hk)
      exact Except.ok.inj ((hpage k).symm.trans (hshown k hbegins))
    rw [hmap, List.flatMap_congr heq]
    exact hall n hn.reaches hn.begins
  · intro hall
    refine ⟨_, fun k _ => hpage k, fun n hreaches hbegins => ?_⟩
    rw [← hmap]
    exact hall n ⟨hreaches, hbegins⟩

/-- Over all ways to break ties, a listing is complete if and only if no tie is split. -/
theorem forall_listsOnce_iff {α β κ : Type} [LinearOrder κ] (key : α → κ) (hlimit : 5 ≤ limit)
    {f : α → β} {rows : List α} (hf : (rows.map f).Nodup)
    (page : (List α → List α) → Nat → Except Error (List β))
    (hpage : ∀ order k, page order k = .ok ((slice limit.toNat k (order rows)).map f)) :
    (∀ orders : Nat → List α → List α, (∀ k, Breaks key (orders k)) →
      ListsOnce limit (fun k => page (orders k) k) (rows.map f)) ↔
    ∀ k, ¬ SplitsAt key rows (k * limit.toNat) := by
  rw [← Paging.pages_perm_iff hf limit.toNat]
  constructor
  · classical
    intro hall answers hanswers
    -- a database that answers so to this query, and sorts the rows of any other
    let orders : Nat → List α → List α := fun k l =>
      if l = rows then answers k else l.insertionSort fun x y => key x ≤ key y
    have horders : ∀ k, Breaks key (orders k) := by
      intro k l
      by_cases hl : l = rows
      · simp only [orders, hl]
        exact hanswers k
      · simp only [orders, if_neg hl]
        exact Paging.orderedBy_insertionSort key l
    have hanswer : ∀ k, page (orders k) k = .ok ((slice limit.toNat k (answers k)).map f) := by
      intro k
      rw [hpage]
      simp only [orders, if_pos]
    exact (listsOnce_iff hlimit hanswer).mp (hall orders horders)
  · intro hall orders horders
    rw [listsOnce_iff hlimit fun k => hpage (orders k) k]
    exact hall _ fun k => horders k rows

theorem listedProblems_unique (hs : Constraints s) (admin : Option User) :
    Table.Unique (·.id) (s.listedProblems admin) := by
  unfold Store.listedProblems
  split
  · exact hs.problem_ids
  · exact hs.problem_ids.filter _

theorem nodup_response (hs : Constraints s) (admin : Option User) :
    ((s.listedProblems admin).map Problem.response).Nodup := by
  apply List.Nodup.of_map ProblemResponse.id
  rw [List.map_map]
  exact listedProblems_unique hs admin

theorem submissionsOf_sublist {user : User} {problem_id : Option Str} {rows : List Submission}
    (h : s.submissionsOf user problem_id = .ok rows) : rows.Sublist s.submissions := by
  unfold Store.submissionsOf at h
  split at h
  · split at h
    · cases h
    · cases h
      exact List.filter_sublist
  · cases h
    exact List.filter_sublist

theorem listedSubmissions_sublist {viewer : Option User} {problem_id username : Option Str}
    {user : User} {rows : List Submission}
    (h : s.listedSubmissions viewer problem_id username = .ok (user, rows)) :
    rows.Sublist s.submissions := by
  unfold Store.listedSubmissions at h
  cases huser : listedUser s.users username viewer with
  | error e => simp [huser, bind, Except.bind] at h
  | ok listed =>
      cases hrows : s.submissionsOf listed problem_id with
      | error e => simp [huser, hrows, bind, Except.bind] at h
      | ok submissions =>
          simp only [huser, hrows, bind, Except.bind, pure, Except.pure, Except.ok.injEq,
            Prod.mk.injEq] at h
          exact h.2 ▸ submissionsOf_sublist hrows

theorem nodup_header (hs : Constraints s) {rows : List Submission}
    (hrows : rows.Sublist s.submissions) (user : User) : (rows.map (·.header user)).Nodup := by
  apply List.Nodup.of_map SubmissionHeaderResponse.id
  rw [List.map_map]
  exact List.Nodup.sublist (hrows.map _) hs.submission_ids

/-- **Exact listings**: the pages of `get_problems`, which sorts by the primary key, always
show every listed problem once.  Those of `get_submissions` do if and only if no page ends
between two submissions of one time. -/
theorem listings_exact_iff (hs : Constraints s) (hlimit : 5 ≤ limit) (hlimit' : limit ≤ 100) :
    (∀ (admin : Option User) (orders : Nat → List Problem → List Problem),
      (∀ k, Breaks (·.id) (orders k)) →
        ListsOnce limit (fun k => getProblemsBy (orders k) s admin (k + 1) limit)
          ((s.listedProblems admin).map Problem.response)) ∧
    ∀ (viewer : Option User) (problem_id username : Option Str) (user : User)
        (rows : List Submission),
      s.listedSubmissions viewer problem_id username = .ok (user, rows) →
        ((∀ orders : Nat → List Submission → List Submission, (∀ k, Breaks latest (orders k)) →
          ListsOnce limit
            (fun k => getSubmissionsBy (orders k) s viewer problem_id username (k + 1) limit)
            (rows.map (·.header user))) ↔
          ¬ TieAcrossPages limit rows) := by
  constructor
  · intro admin
    apply (forall_listsOnce_iff (·.id) hlimit (nodup_response hs admin)
      (fun order k => getProblemsBy order s admin (k + 1) limit) ?_).mpr
    · exact fun k => Paging.not_splitsAt_of_injOn (listedProblems_unique hs admin).of_map
        (fun a ha b hb => (listedProblems_unique hs admin).eq ha hb) _
    · intro order k
      obtain ⟨page, hpage, hslice⟩ := ofInts_eq_some hlimit hlimit' k
      simp only [getProblemsBy, hpage, hslice]
  · intro viewer problem_id username user rows hrows
    have hnodup := nodup_header hs (listedSubmissions_sublist hrows) user
    rw [TieAcrossPages, not_exists]
    apply forall_listsOnce_iff latest hlimit hnodup
      (fun order k => getSubmissionsBy order s viewer problem_id username (k + 1) limit)
    intro order k
    obtain ⟨page, hpage, hslice⟩ := ofInts_eq_some hlimit hlimit' k
    simp only [getSubmissionsBy, hpage, hrows, hslice]
    rfl

/-- The first query answers with the oldest rows first, the others with the newest. -/
def eitherEnd (k : Nat) (rows : List Submission) : List Submission :=
  if k = 0 then newestFirst rows else newestFirst rows.reverse

theorem breaks_eitherEnd (k : Nat) : Breaks latest (eitherEnd k) := by
  intro rows
  unfold eitherEnd
  split
  · exact breaks_newestFirst rows
  · have hreverse := breaks_newestFirst rows.reverse
    exact ⟨hreverse.perm.trans (List.reverse_perm rows), hreverse.sorted⟩

def sevenRows : Store :=
  { shown with
    submissions := (List.range 7).map fun i =>
      ⟨⟨['p'], .PYTHON, List.replicate (i + 1) 'a', pendingRow⟩, i + 1, i / 2, 1⟩ }

theorem constraints_sevenRows : Constraints sevenRows where
  problem_ids := constraints_shown.problem_ids
  submission_ids := by
    unfold Table.Unique
    decide
  code_object_keys := by
    unfold Table.Unique
    decide
  problem_fk := by decide
  user_fk := by decide

theorem listings_exact_sevenRows :
    ListsOnce 5 (fun k => getSubmissionsBy (eitherEnd k) sevenRows none none (some ann.username)
      (k + 1) 5) (sevenRows.submissions.map (·.header annRow)) := by
  have hlisted : sevenRows.listedSubmissions none none (some ann.username) =
      .ok (annRow, sevenRows.submissions) := rfl
  refine ((listings_exact_iff constraints_sevenRows le_rfl (by decide)).2 none none
    (some ann.username) annRow sevenRows.submissions hlisted).mpr ?_ eitherEnd breaks_eitherEnd
  rintro ⟨k, hsplit⟩
  have hfirst : ¬ SplitsAt latest sevenRows.submissions 5 := by decide
  obtain rfl | rfl | hk : k = 0 ∨ k = 1 ∨ 2 ≤ k := by omega
  · obtain ⟨r, -, hlt, -⟩ := hsplit
    omega
  · exact hfirst hsplit
  · obtain ⟨r, -, -, hle⟩ := hsplit
    have hcount : sevenRows.submissions.countP (latest · ≤ latest r) ≤ 7 := List.countP_le_length
    rw [show Int.toNat 5 = 5 from rfl] at hle
    omega

def sixAtOnce : Store :=
  { shown with
    submissions := (List.range 6).map fun i =>
      ⟨⟨['p'], .PYTHON, List.replicate (i + 1) 'a', pendingRow⟩, i + 1, 0, 1⟩ }

theorem not_listsOnce_sixAtOnce :
    ¬ ∀ orders : Nat → List Submission → List Submission, (∀ k, Breaks latest (orders k)) →
      ListsOnce 5
        (fun k => getSubmissionsBy (orders k) sixAtOnce none none (some ann.username) (k + 1) 5)
        (sixAtOnce.submissions.map (·.header annRow)) := by
  intro hall
  obtain ⟨shown, hshown, hperm⟩ := hall eitherEnd breaks_eitherEnd
  have hcount : (sixAtOnce.submissions.map (·.header annRow)).length = 6 := rfl
  have hids : ∀ k ≤ 1, ∀ ids, (getSubmissionsBy (eitherEnd k) sixAtOnce none none
      (some ann.username) (k + 1) 5).map (List.map SubmissionHeaderResponse.id) = .ok ids →
      (shown k).map SubmissionHeaderResponse.id = ids := by
    intro k hle ids hk
    have hpage := hshown k (by omega)
    dsimp only at hpage
    rw [hpage] at hk
    exact Except.ok.inj hk
  have hfirst : (shown 0).map SubmissionHeaderResponse.id = [1, 2, 3, 4, 5] := hids 0 (by omega) _ rfl
  have hsecond : (shown 1).map SubmissionHeaderResponse.id = [1] := hids 1 le_rfl _ rfl
  have hpages := (hperm 2 (by omega) (by omega)).map SubmissionHeaderResponse.id
  have hconcat : ((List.range 2).flatMap shown).map SubmissionHeaderResponse.id =
      [1, 2, 3, 4, 5] ++ [1] := by
    rw [← hfirst, ← hsecond]
    simp [List.range_succ]
  rw [hconcat] at hpages
  revert hpages
  decide

end ByteBattles.Api
