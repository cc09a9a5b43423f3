import ByteBattles.Api.CreateProblem.Model

/-!
# Integrity of the testcase store

Every committed testcase has its two objects in the bucket, as long as no failure
handler removes a folder in which a committed problem keeps its objects.
-/

namespace ByteBattles.Api.CreateProblem

open ByteBattles.Lib

variable {categories : List Str} {env : Environment} {s t : State} {id : Str}

def StoreIntact (s : State) : Prop :=
  ∀ tc ∈ s.testcases, tc.input_key ∈ s.bucket.keys ∧ tc.output_key ∈ s.bucket.keys

instance (s : State) : Decidable (StoreIntact s) := List.decidableBAll _ _

/-! ## Two requests with one id -/

def repeated (c : Char) (h : c ∈ hexDigits) : Uuid where
  hex := List.replicate 32 c
  length_hex := List.length_replicate
  mem_hexDigits := fun _ hc => List.eq_of_mem_replicate hc ▸ h

def zeros : Uuid := repeated '0' (by decide)

def ones : Uuid := repeated '1' (by decide)

def calm : Environment where
  raises := fun _ => false
  uuid := fun n => if n % 2 = 0 then zeros else ones

def twoSum : Request where
  id := ['p']
  filename := "t.zip".toList
  zip := some ⟨[("t/inputs/1".toList, some [49]), ("t/outputs/1".toList, some [50])]⟩
  tags := some []

/-- Both requests pass the check, the first one commits, and the flush of the second
one is rejected. -/
def sameIdRun : List Action :=
  [.arrive twoSum, .arrive twoSum, .check 0, .check 1, .resume 0 calm, .resume 1 calm]

theorem not_storeIntact_sameId :
    (∃ s, (system []).Reachable s ∧ s.testcases ≠ [] ∧ s.bucket = []) ∧
      ¬ ∀ categories s, (system categories).Reachable s → StoreIntact s := by
  obtain ⟨s, hs, htests, hbucket, hbroken⟩ := System.exists_path (system []) (fun _ _ => True)
    start sameIdRun (fun s => s.testcases ≠ [] ∧ s.bucket = [] ∧ ¬ StoreIntact s) (by decide)
  have hreach : (system []).Reachable s := ⟨_, rfl, hs⟩
  exact ⟨⟨s, hreach, htests, hbucket⟩, fun hall => hbroken (hall _ s hreach)⟩

/-! ## Which folder a step removes -/

/-- The ids whose objects lie in the folder of `p`. -/
def Within (p q : Str) : Prop := q = p ∨ p ++ ['/'] <+: q

instance (p q : Str) : Decidable (Within p q) := inferInstanceAs (Decidable (_ ∨ _))

/-- The `try` block raises and its handler reaches the bucket. -/
def handlerRuns (categories : List Str) (env : Environment) (s : State) (req : Request) : Bool :=
  match validate categories req with
  | .error _ => false
  | .ok v => (tryBlock env s req.id v).2.isNone && !env.raises .deleteFolder

/-- The id of the folder that the step removes. -/
def cleans (categories : List Str) (s : State) : Action → Option Str
  | .resume i env =>
      match s.requests[i]? with
      | some (.reading req) => if handlerRuns categories env s req then some req.id else none
      | _ => none
  | _ => none

/-- No committed problem has its objects in the folder that the step removes. -/
def Spares (categories : List Str) (s : State) (a : Action) : Prop :=
  ∀ p ∈ cleans categories s a, ∀ q ∈ s.problems, ¬ Within p q

instance (categories : List Str) (s : State) (a : Action) : Decidable (Spares categories s a) :=
  inferInstanceAs (Decidable (∀ p ∈ cleans categories s a, _))

/-! ## The parts of a request -/

/-- A key that `generateObjectKey` can produce for the problem. -/
def KeyOf (id key : Str) : Prop :=
  ∃ filename u, '/' ∉ filename ∧ key = generateObjectKey id filename u

theorem keyOf_lastSegment (id path : Str) (u : Uuid) :
    KeyOf id (generateObjectKey id (Str.lastSegment '/' path) u) :=
  ⟨_, u, Str.not_mem_lastSegment _ _, rfl⟩

theorem KeyOf.within {p key : Str} (h : KeyOf id key) (hp : problemFolder p <+: key) :
    Within p id := by
  obtain ⟨filename, u, hname, rfl⟩ := h
  exact folder_prefix_key hname hp

structure Stored (id : Str) (bucket : Bucket (List Byte)) (tc : TestCase) : Prop where
  problem : tc.problem_id = id
  input : KeyOf id tc.input_key
  output : KeyOf id tc.output_key
  input_mem : tc.input_key ∈ bucket.keys
  output_mem : tc.output_key ∈ bucket.keys

theorem Stored.mono {bucket bucket' : Bucket (List Byte)} {tc : TestCase}
    (h : Stored id bucket tc) (hsub : bucket.keys ⊆ bucket'.keys) : Stored id bucket' tc :=
  ⟨h.problem, h.input, h.output, hsub h.input_mem, hsub h.output_mem⟩

/-- Uploads from `bucket` on only add objects, and the testcases they return have theirs. -/
structure Uploaded (id : Str) (bucket : Bucket (List Byte))
    (result : Bucket (List Byte) × Option (List TestCase)) : Prop where
  keys : bucket.keys ⊆ result.1.keys
  stored : ∀ testcases, result.2 = some testcases → ∀ tc ∈ testcases, Stored id result.1 tc

theorem uploaded_none {bucket bucket' : Bucket (List Byte)} (h : bucket.keys ⊆ bucket'.keys) :
    Uploaded id bucket (bucket', none) := ⟨h, nofun⟩

theorem upload_spec (env : Environment) (id : Str) (zip : ZipFile) (n : Nat)
    (files : List (Str × Str)) (bucket : Bucket (List Byte)) :
    Uploaded id bucket (upload env id zip n files bucket) := by
  induction files generalizing n bucket with
  | nil =>
      refine ⟨List.Subset.refl _, fun testcases h => ?_⟩
      obtain rfl := Option.some.inj h
      exact nofun
  | cons file files ih =>
      obtain ⟨input_path, output_path⟩ := file
      unfold upload
      split
      case h_2 => exact uploaded_none (List.Subset.refl _)
      case h_1 input_data output_data _ _ =>
        simp only
        split
        case isTrue => exact uploaded_none (List.Subset.refl _)
        case isFalse =>
          split
          case isTrue => exact uploaded_none fun k hk => by simp [hk]
          case isFalse =>
            generalize hstored : Bucket.putObject (bucket.putObject _ input_data) _ output_data =
              stored
            have hsub : bucket.keys ⊆ stored.keys := by
              intro k hk
              simp [← hstored, hk]
            have hrest := ih (n + 1) stored
            split
            case h_1 bucket' testcases heq =>
              rw [heq] at hrest
              refine ⟨fun k hk => hrest.keys (hsub hk), fun all h tc htc => ?_⟩
              obtain rfl := Option.some.inj h
              rcases List.mem_cons.mp htc with rfl | htc
              · refine ⟨rfl, keyOf_lastSegment _ _ _, keyOf_lastSegment _ _ _, ?_, ?_⟩
                · exact hrest.keys (by simp [← hstored])
                · exact hrest.keys (by simp [← hstored])
              · exact hrest.stored testcases rfl tc htc
            case h_2 bucket' heq =>
              rw [heq] at hrest
              exact uploaded_none fun k hk => hrest.keys (hsub hk)

theorem tryBlock_spec (env : Environment) (s : State) (id : Str) (v : Validated) :
    Uploaded id s.bucket (tryBlock env s id v) := by
  have hup := upload_spec env id v.zip 0 v.files s.bucket
  unfold tryBlock
  split
  case isTrue => exact uploaded_none (List.Subset.refl _)
  case isFalse =>
    split
    case h_1 bucket testcases heq =>
      rw [heq] at hup
      split
      case isTrue => exact uploaded_none hup.keys
      case isFalse => exact hup
    case h_2 bucket heq =>
      rw [heq] at hup
      exact uploaded_none hup.keys

/-! ## The invariant -/

/-- Every committed testcase belongs to a committed problem and is stored for it. -/
def Intact (s : State) : Prop :=
  ∀ tc ∈ s.testcases, tc.problem_id ∈ s.problems ∧ Stored tc.problem_id s.bucket tc

theorem Intact.storeIntact (hs : Intact s) : StoreIntact s :=
  fun tc htc => ⟨(hs tc htc).2.input_mem, (hs tc htc).2.output_mem⟩

theorem Intact.with_requests (hs : Intact s) (requests : List Position) :
    Intact { s with requests := requests } := hs

/-- Removing a folder in which no committed problem has its objects. -/
theorem Stored.spared {p : Str} {bucket : Bucket (List Byte)} {tc : TestCase}
    (h : Stored id bucket tc) (hp : ¬ Within p id) : Stored id (deleteProblemFolder bucket p) tc := by
  refine ⟨h.problem, h.input, h.output, ?_, ?_⟩
  · exact Bucket.mem_keys_deleteObjects.mpr ⟨h.input_mem, fun hk =>
      hp (h.input.within (Bucket.prefix_of_mem_listObjects hk))⟩
  · exact Bucket.mem_keys_deleteObjects.mpr ⟨h.output_mem, fun hk =>
      hp (h.output.within (Bucket.prefix_of_mem_listObjects hk))⟩

theorem Intact.resume (hs : Intact s) {req : Request}
    (hspares : handlerRuns categories env s req = true → ∀ q ∈ s.problems, ¬ Within req.id q) :
    Intact (resume categories env s req).1 := by
  unfold handlerRuns at hspares
  unfold CreateProblem.resume
  cases hv : validate categories req with
  | error detail => exact hs
  | ok v =>
      have hup := tryBlock_spec env s req.id v
      cases htry : tryBlock env s req.id v with
      | mk bucket result =>
          simp only [hv, htry] at hspares ⊢
          rw [htry] at hup
          cases result with
          | some testcases =>
              intro tc htc
              rcases List.mem_append.mp htc with htc | htc
              · obtain ⟨hprob, hstored⟩ := hs tc htc
                exact ⟨List.mem_append_left _ hprob, hstored.mono hup.keys⟩
              · have hstored := hup.stored testcases rfl tc htc
                rw [hstored.problem]
                exact ⟨List.mem_append_right _ (List.mem_singleton.mpr rfl), hstored⟩
          | none =>
              simp only [handler]
              split
              case isTrue =>
                intro tc htc
                exact ⟨(hs tc htc).1, (hs tc htc).2.mono hup.keys⟩
              case isFalse hdel =>
                intro tc htc
                obtain ⟨hprob, hstored⟩ := hs tc htc
                exact ⟨hprob, (hstored.mono hup.keys).spared
                  (hspares (by simpa using hdel) _ hprob)⟩

theorem Intact.step {a : Action} (hs : Intact s) (hok : Spares categories s a)
    (h : step categories s a = some t) : Intact t := by
  cases a with
  | arrive req =>
      obtain rfl := Option.some.inj h
      exact hs.with_requests _
  | check i =>
      simp only [CreateProblem.step] at h
      split at h
      case h_1 =>
        obtain rfl := Option.some.inj h
        exact hs.with_requests _
      case h_2 => cases h
  | resume i env =>
      simp only [CreateProblem.step] at h
      split at h
      case h_1 req hreq =>
        obtain rfl := Option.some.inj h
        refine (hs.resume fun hrun => ?_).with_requests _
        exact hok req.id (by simp [cleans, hreq, hrun])
      case h_2 => cases h

/-- **The testcase store stays intact** in every run whose failure handlers remove only
folders in which no committed problem has its objects. -/
theorem storeIntact_of_spares (h : (system categories).ReachableUnder (Spares categories) s) :
    StoreIntact s := by
  refine Intact.storeIntact (System.PreservedUnder.invariant ?_ ?_ h)
  · intro s t a _ hs hok hstep
    exact hs.step hok hstep
  · rintro _ rfl tc htc
    cases htc

/-- The condition is needed: where one page holds the bucket, a handler that removes a
folder in which a committed testcase has its objects takes them away. -/
theorem not_storeIntact_of_within (hs : Intact s) {req : Request} {v : Validated} {tc : TestCase}
    (hv : validate categories req = .ok v) (hrun : handlerRuns categories env s req = true)
    (hpage : (tryBlock env s req.id v).1.length ≤ maxKeys) (htc : tc ∈ s.testcases)
    (hwithin : Within req.id tc.problem_id) :
    ¬ StoreIntact (CreateProblem.resume categories env s req).1 := by
  have hup := tryBlock_spec env s req.id v
  unfold handlerRuns at hrun
  unfold CreateProblem.resume
  cases htry : tryBlock env s req.id v with
  | mk bucket result =>
      simp only [hv, htry] at hrun hpage ⊢
      rw [htry] at hup
      rw [Bool.and_eq_true, Option.isNone_iff_eq_none, Bool.not_eq_true'] at hrun
      obtain ⟨rfl, hdel⟩ := hrun
      simp only [handler, hdel, Bool.false_eq_true, if_false]
      intro hintact
      obtain ⟨hin, -⟩ := hintact tc htc
      have hstored := (hs tc htc).2
      obtain ⟨filename, u, -, hkey⟩ := hstored.input
      refine (Bucket.mem_keys_deleteObjects.mp hin).2 (Bucket.mem_listObjects hpage ?_ ?_)
      · exact hup.keys hstored.input_mem
      · rw [hkey]
        exact key_mem_folder hwithin

def otherIdRun : List Action :=
  [.arrive twoSum, .arrive { twoSum with id := ['q'] }, .check 0, .check 1, .resume 0 calm,
    .resume 1 { calm with raises := fun c => c = .commit }]

theorem storeIntact_otherId :
    ∃ s, (system []).ReachableUnder (Spares []) s ∧ s.testcases ≠ [] ∧ StoreIntact s := by
  obtain ⟨s, hs, htests⟩ := System.exists_path (system []) (Spares []) start otherIdRun
    (fun s => s.testcases ≠ []) (by decide)
  exact ⟨s, ⟨_, rfl, hs⟩, htests, storeIntact_of_spares ⟨_, rfl, hs⟩⟩

end ByteBattles.Api.CreateProblem
