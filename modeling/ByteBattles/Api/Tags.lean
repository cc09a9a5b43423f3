import ByteBattles.Api.Solvability

/-!
# The tags of a problem

`create_problem` compares the number of categories that its query returns with the number of
tags in the request.  A category is known by its slug, so that equal numbers mean that no tag
is repeated and none is unknown.
-/

namespace ByteBattles.Api

open ByteBattles.Lib

open CreateProblem (knownTags pairedFiles)

variable {lib : Libraries} {cfg : Config} {env : Environment} {s t : Store} {st : State}
  {categories tags found : List Str} {token : Option Token} {form : ProblemForm}

/-! ## The test -/

def TagsKnown (categories tags : List Str) : Prop :=
  tags.Nodup ∧ ∀ tag ∈ tags, tag ∈ categories

instance (categories tags : List Str) : Decidable (TagsKnown categories tags) :=
  inferInstanceAs (Decidable (_ ∧ _))

/-- What the query may return: the categories named by the tags, in any order. -/
def Answers (categories tags found : List Str) : Prop :=
  found.Perm (categories.filter fun slug => slug ∈ tags)

/-- The order of the table is one of them. -/
theorem answers_filter : Answers categories tags (categories.filter fun slug => slug ∈ tags) :=
  .refl _

theorem unique_slugs (hslugs : categories.Nodup) : Table.Unique id categories := by
  rwa [Table.Unique, List.map_id]

theorem filter_eq_select :
    categories.filter (fun slug => slug ∈ tags) = Table.select id tags categories :=
  List.filter_congr fun _ _ => decide_eq_decide.mpr Iff.rfl

theorem Answers.length_iff (h : Answers categories tags found) (hslugs : categories.Nodup) :
    found.length = tags.length ↔ TagsKnown categories tags := by
  have hunique := unique_slugs hslugs
  have hknown : (Table.select id tags categories).length = tags.length ↔
      tags.Nodup ∧ ∀ tag ∈ tags, tag ∈ categories.map id :=
    hunique.length_select_iff.trans hunique.map_select_perm_iff
  rw [List.map_id] at hknown
  rw [h.length_eq, filter_eq_select]
  exact hknown

/-- With as many categories as tags, the query has returned those of the tags. -/
theorem Answers.perm (h : Answers categories tags found) (hslugs : categories.Nodup)
    (hlength : found.length = tags.length) : found.Perm tags := by
  rw [h.length_eq, filter_eq_select] at hlength
  have hperm := (unique_slugs hslugs).length_select_iff.mp hlength
  rw [List.map_id, ← filter_eq_select] at hperm
  exact h.trans hperm

theorem knownTags_eq_ok :
    knownTags categories (some tags) = .ok found ↔
      found = categories.filter (fun slug => slug ∈ tags) ∧ found.length = tags.length := by
  unfold knownTags
  dsimp only
  split
  case isTrue hlength =>
    constructor
    · exact nofun
    · rintro ⟨rfl, heq⟩
      exact absurd heq hlength
  case isFalse hlength =>
    rw [Except.ok.injEq]
    constructor
    · rintro rfl
      exact ⟨rfl, not_not.mp hlength⟩
    · rintro ⟨rfl, -⟩
      rfl

theorem answers_of_knownTags (h : knownTags categories (some tags) = .ok found) :
    Answers categories tags found ∧ found.length = tags.length := by
  obtain ⟨hfound, hlength⟩ := knownTags_eq_ok.mp h
  exact ⟨hfound ▸ answers_filter, hlength⟩

theorem knownTags_isOk_iff (hslugs : categories.Nodup) :
    (∃ found, knownTags categories (some tags) = .ok found) ↔ TagsKnown categories tags := by
  constructor
  · intro hpasses
    obtain ⟨found, hfound⟩ := hpasses
    obtain ⟨hanswers, hlength⟩ := answers_of_knownTags hfound
    exact (hanswers.length_iff hslugs).mp hlength
  · intro hknown
    have hlength := (answers_filter.length_iff hslugs).mpr hknown
    exact ⟨_, knownTags_eq_ok.mpr ⟨rfl, hlength⟩⟩

/-- The test raises for every other list of tags. -/
theorem knownTags_eq_error (hslugs : categories.Nodup) (hunknown : ¬ TagsKnown categories tags) :
    knownTags categories (some tags) = .error "One or more tags are invalid" := by
  unfold knownTags
  dsimp only
  apply if_pos
  intro hlength
  exact hunknown ((answers_filter.length_iff hslugs).mp hlength)

/-! ## The route -/

/-- The request is one of an administrator, and passes the checks before the one of its
tags. -/
structure ReachesTagCheck (env : Environment) (s : Store) (token : Option Token)
    (form : ProblemForm) : Prop where
  query : env.raises .query = false
  admin : (getCurrentAdmin s.users env.now token).isOk = true
  complete : form.Complete
  suspended : CreateProblem.check s.creation form.toRequest = .reading form.toRequest
  paired : ∃ zip files, form.zip = some zip ∧ pairedFiles form.filename zip = .ok files

def invalidTags : Error := .http 400 "One or more tags are invalid"

theorem ReachesTagCheck.createProblem_iff (h : ReachesTagCheck env s token form)
    (hslugs : s.categories.Nodup) (htags : form.toRequest.tags = some tags) :
    (createProblem env form).Ends s fun r t =>
      r = .error invalidTags ∧ t = s ↔ ¬ TagsKnown s.categories tags := by
  obtain ⟨zip, files, hzip, hfiles⟩ := h.paired
  have hvalidate : CreateProblem.validate s.categories form.toRequest =
      (knownTags s.categories form.toRequest.tags).map fun tags => ⟨zip, files, tags⟩ :=
    CreateProblem.validate_of_files hzip hfiles
  rw [htags] at hvalidate
  unfold createProblem
  refine Handler.Ends.refuseIf_bind (fun hc => absurd h.complete hc) fun _ => ?_
  apply Handler.Ends.read_bind
  rw [h.suspended]
  by_cases hknown : TagsKnown s.categories tags
  · obtain ⟨linked, hlinked⟩ := (knownTags_isOk_iff hslugs).mpr hknown
    rw [hlinked] at hvalidate
    cases hresume : CreateProblem.resume s.categories env.bundle s.creation form.toRequest with
    | mk c response =>
        cases response with
        | error status_code detail =>
            obtain rfl := CreateProblem.resume_of_validate hvalidate hresume
            apply Handler.Ends.write_bind
            apply Handler.Ends.raise
            simp [hknown, invalidTags]
        | created id tags testcases =>
            apply Handler.Ends.write_bind
            apply Handler.Ends.write_bind
            apply Handler.Ends.pure
            simp [hknown]
  · rw [knownTags_eq_error hslugs hknown] at hvalidate
    have hresume : CreateProblem.resume s.categories env.bundle s.creation form.toRequest =
        (s.creation, .error 400 "One or more tags are invalid") := by
      rw [CreateProblem.resume, hvalidate]
      rfl
    rw [hresume]
    apply Handler.Ends.write_bind
    apply Handler.Ends.raise
    exact iff_of_true ⟨rfl, rfl⟩ hknown

/-- A request that gets to the test is refused by it if and only if its tags are not known. -/
theorem ReachesTagCheck.refused_iff (h : ReachesTagCheck env s token form)
    (hslugs : s.categories.Nodup) (htags : form.toRequest.tags = some tags) :
    serve lib cfg env (.createProblem token form) s = (.error invalidTags, s) ↔
      ¬ TagsKnown s.categories tags := by
  have hserve : (serve lib cfg env (.createProblem token form)).Ends s fun r t =>
      r = .error invalidTags ∧ t = s ↔ ¬ TagsKnown s.categories tags := by
    apply ends_respond
    refine ends_withCurrentAdmin (fun hquery => ?_) (fun e herror => ?_) fun _ _ _ => ?_
    · rw [h.query] at hquery
      cases hquery
    · have hadmin := h.admin
      rw [herror] at hadmin
      cases hadmin
    · refine (h.createProblem_iff hslugs htags).mono fun r t hiff => ?_
      rw [← hiff]
      cases r with
      | error e => simp [Except.map]
      | ok a => simp [Except.map]
  rw [Prod.ext_iff]
  exact hserve

theorem linked_of_created {c : CreateProblem.State} {id : Str} {linked : List Str} {count : Nat}
    (hresume : CreateProblem.resume s.categories env.bundle s.creation form.toRequest =
      (c, .created id linked count)) :
    ∃ tags, form.toRequest.tags = some tags ∧ Answers s.categories tags linked ∧
      linked.length = tags.length := by
  obtain ⟨v, testcases, hv, rfl, -, -⟩ := CreateProblem.resume_created hresume
  have hknown := (CreateProblem.validate_eq_ok.mp hv).2.2
  cases htags : form.toRequest.tags with
  | none =>
      rw [htags] at hknown
      cases hknown
  | some tags =>
      rw [htags] at hknown
      exact ⟨tags, rfl, answers_of_knownTags hknown⟩

theorem created_tags (hslugs : s.categories.Nodup) (htags : form.toRequest.tags = some tags)
    {response : Response}
    (hserve : serve lib cfg env (.createProblem token form) s = (.ok response, t)) :
    TagsKnown s.categories tags ∧
      ∃ linked, linked.Perm tags ∧ t.problems = s.problems ++ [form.problem linked] := by
  have houtcome := (creationOutcome token form).of_eq hserve
  cases houtcome with
  | created hnew hresume =>
      obtain ⟨tags', htags', hanswers, hlength⟩ := linked_of_created hresume
      obtain rfl := Option.some.inj (htags'.symm.trans htags)
      exact ⟨(hanswers.length_iff hslugs).mp hlength, _, hanswers.perm hslugs hlength, rfl⟩

/-! ## Every run -/

structure TagsLinked (s : Store) : Prop where
  slugs : s.categories.Nodup
  linked : ∀ problem ∈ s.problems, TagsKnown s.categories problem.tags

theorem TagsKnown.perm (h : TagsKnown categories tags) {tags' : List Str}
    (hperm : tags'.Perm tags) : TagsKnown categories tags' := by
  obtain ⟨hdistinct, hmem⟩ := h
  exact ⟨hperm.nodup_iff.mpr hdistinct, fun tag htag => hmem tag (hperm.mem_iff.mp htag)⟩

theorem TagsLinked.created (h : TagsLinked s) {c : CreateProblem.State} {id : Str}
    {linked : List Str} {count : Nat}
    (hresume : CreateProblem.resume s.categories env.bundle s.creation form.toRequest =
      (c, .created id linked count)) : TagsLinked (s.created form linked c) where
  slugs := h.slugs
  linked := by
    intro problem hproblem
    rcases List.mem_append.mp hproblem with hold | hnew
    · exact h.linked problem hold
    · rw [List.mem_singleton.mp hnew]
      obtain ⟨tags, -, hanswers, hlength⟩ := linked_of_created hresume
      have hknown := (hanswers.length_iff h.slugs).mp hlength
      exact hknown.perm (hanswers.perm h.slugs hlength)

theorem TagsLinked.tagged (h : TagsLinked s) {slug : Str} (hnew : slug ∉ s.categories) :
    TagsLinked { s with categories := s.categories ++ [slug] } where
  slugs := List.nodup_append.mpr ⟨h.slugs, List.nodup_singleton _, by grind⟩
  linked := by
    intro problem hproblem
    obtain ⟨hdistinct, hmem⟩ := h.linked problem hproblem
    exact ⟨hdistinct, fun tag htag => List.mem_append_left _ (hmem tag htag)⟩

theorem TagsLinked.effect (h : TagsLinked s) {request : Request}
    (heffect : Effect lib env s request t) : TagsLinked t := by
  cases heffect with
  | created hnew hresume => exact h.created hresume
  | tagged hnew => exact h.tagged hnew
  | problemDeleted => exact ⟨h.slugs, fun p hp => h.linked p (List.mem_of_mem_filter hp)⟩
  | submission hauth houtcome =>
      cases houtcome with
      | _ => exact ⟨h.slugs, h.linked⟩
  | _ => exact ⟨h.slugs, h.linked⟩

theorem tagsLinked_invariant : StoreInvariant lib TagsLinked where
  empty := ⟨List.nodup_nil, nofun⟩
  effect := fun h heffect => h.effect heffect
  promote := fun _ h => ⟨h.slugs, h.linked⟩
  jobs := fun _ h => ⟨h.slugs, h.linked⟩
  result := fun _ _ h => ⟨h.slugs, h.linked⟩

theorem tagsLinked_of_reachable (h : (system lib cfg).Reachable st) : TagsLinked st.store :=
  tagsLinked_invariant.of_reachable h

/-! ## The count -/

/-- **The tag check by counting is exact**: the numbers are equal if and only if no tag is
repeated and each one is the slug of a category, and then the query has returned exactly the
categories of the tags, to which the new problem is linked. -/
theorem tag_check_exact (hslugs : s.categories.Nodup) (tags : List Str) :
    (∀ categories, Answers s.categories tags categories →
      (categories.length = tags.length ↔ TagsKnown s.categories tags) ∧
      (categories.length = tags.length → categories.Perm tags)) ∧
    ∀ lib cfg env token form, form.toRequest.tags = some tags →
      (ReachesTagCheck env s token form →
        (serve lib cfg env (.createProblem token form) s = (.error invalidTags, s) ↔
          ¬ TagsKnown s.categories tags)) ∧
      ∀ response t, serve lib cfg env (.createProblem token form) s = (.ok response, t) →
        TagsKnown s.categories tags ∧
          ∃ linked, linked.Perm tags ∧ t.problems = s.problems ++ [form.problem linked] := by
  constructor
  · intro categories hanswers
    exact ⟨hanswers.length_iff hslugs, hanswers.perm hslugs⟩
  · intro lib cfg env token form htags
    constructor
    · intro hreaches
      exact hreaches.refused_iff hslugs htags
    · intro response t hserve
      exact created_tags hslugs htags hserve

def tagging (slug : Str) : Action :=
  .request (quiet 5 CreateProblem.zeros) (.createTag (some annToken) ⟨slug, slug⟩)

def taggedForm (tags : List Str) : ProblemForm := { sumForm ['p'] true with tags := .value tags }

theorem reachesTagCheck_taggedForm (hproblems : s.problems = [])
    (hadmin : (getCurrentAdmin s.users 6 (some annToken)).isOk = true) (tags : List Str) :
    ReachesTagCheck (quiet 6 CreateProblem.zeros) s (some annToken) (taggedForm tags) where
  query := rfl
  admin := hadmin
  complete := by
    have hcomplete : (sumForm ['p'] true).Complete := by decide
    have htags : (taggedForm tags).tags ≠ .empty := by simp [taggedForm]
    exact ⟨hcomplete.1, hcomplete.2.1, htags, hcomplete.2.2.2⟩
  suspended := by
    have hnew : (taggedForm tags).id ∉ s.creation.problems := by
      simp [Store.creation, hproblems]
    have hzip : CreateProblem.zipSuffix <:+ (taggedForm tags).filename := by
      show CreateProblem.zipSuffix <:+ CreateProblem.twoSum.filename
      decide
    exact ProblemForm.check_reading hnew hzip
  paired := by
    refine ⟨_, [("t/inputs/1".toList, "t/outputs/1".toList)], rfl, ?_⟩
    show pairedFiles CreateProblem.twoSum.filename _ = _
    decide

/-- The request that repeats a tag is refused, and the problem of the one that names both
categories is linked to them. -/
theorem tag_check_exact_twoTags :
    ∃ s response t, creation (taggedForm [['m'], ['m']]) s = (.error invalidTags, s) ∧
      creation (taggedForm [['g'], ['m']]) s = (.ok response, t) ∧
      ∃ linked, linked.Perm [['g'], ['m']] ∧
        t.problems = s.problems ++ [(taggedForm [['g'], ['m']]).problem linked] := by
  obtain ⟨st, hpath, hproblems, hadmin, hcreated⟩ := System.exists_path (system plain halfHour)
    (fun _ _ => True) start (submissionRun.take 3 ++ [tagging ['m'], tagging ['g']])
    (fun st => st.store.problems.isEmpty = true ∧
      (getCurrentAdmin st.store.users 6 (some annToken)).isOk = true ∧
      (creation (taggedForm [['g'], ['m']]) st.store).1.isOk = true) (by decide +kernel)
  have hslugs := (tagsLinked_of_reachable ⟨_, rfl, hpath⟩).slugs
  have hreaches := reachesTagCheck_taggedForm (List.isEmpty_iff.mp hproblems) hadmin
  have hrepeated : ¬ TagsKnown st.store.categories [['m'], ['m']] := by
    rintro ⟨hdistinct, -⟩
    exact absurd hdistinct (by decide)
  cases hresult : creation (taggedForm [['g'], ['m']]) st.store with
  | mk result t =>
      rw [hresult] at hcreated
      cases result with
      | error e => cases hcreated
      | ok response =>
          have hrefused := ((tag_check_exact hslugs [['m'], ['m']]).2 plain halfHour _ _
            (taggedForm [['m'], ['m']]) rfl).1 (hreaches _)
          have hlinked := ((tag_check_exact hslugs [['g'], ['m']]).2 plain halfHour _ _
            (taggedForm [['g'], ['m']]) rfl).2 response t hresult
          exact ⟨st.store, response, t, hrefused.mpr hrepeated, hresult, hlinked.2⟩

end ByteBattles.Api
