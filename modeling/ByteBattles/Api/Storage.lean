import ByteBattles.Lib.ObjectStore
import ByteBattles.Lib.StdioProgram

/-!
# The testcase storage

`StorageServiceTestcases` of `api/app/core/storage.py`: the keys under which
testcases are stored, and the removal of the folder of a problem.
-/

namespace ByteBattles.Api

open ByteBattles.Lib

def hexDigits : Str := "0123456789abcdef".toList

structure Uuid where
  hex : Str
  length_hex : hex.length = 32
  mem_hexDigits : ∀ c ∈ hex, c ∈ hexDigits

def problemsRoot : Str := "problems/".toList

def problemFolder (problem_id : Str) : Str := problemsRoot ++ problem_id ++ ['/']

def generateObjectKey (problem_id filename : Str) (unique_id : Uuid) : Str :=
  problemFolder problem_id ++ unique_id.hex ++ '-' :: filename

/-- `MaxKeys` of `list_objects_v2`. -/
def maxKeys : Nat := 1000

/-- `delete_problem_folder`: one page of the folder is removed. -/
def deleteProblemFolder (bucket : Bucket (List Byte)) (problem_id : Str) : Bucket (List Byte) :=
  bucket.deleteObjects (bucket.listObjects maxKeys (problemFolder problem_id))

theorem Uuid.slash_not_mem (u : Uuid) : '/' ∉ u.hex := fun h => by
  have := u.mem_hexDigits _ h
  revert this
  decide

/-- A folder contains the keys of its own problem, and of problems whose ids lie within it. -/
theorem folder_prefix_key {p q filename : Str} {u : Uuid} (hname : '/' ∉ filename)
    (h : problemFolder p <+: generateObjectKey q filename u) : q = p ∨ p ++ ['/'] <+: q := by
  have hrest : '/' ∉ u.hex ++ '-' :: filename := by
    simpa [u.slash_not_mem] using hname
  simp only [problemFolder, generateObjectKey, List.append_assoc,
    List.prefix_append_right_inj, List.singleton_append] at h
  exact Str.eq_or_within_of_prefixed hrest h

theorem key_mem_folder {p q filename : Str} {u : Uuid} (h : q = p ∨ p ++ ['/'] <+: q) :
    problemFolder p <+: generateObjectKey q filename u := by
  simp only [problemFolder, generateObjectKey, List.append_assoc, List.prefix_append_right_inj]
  rcases h with rfl | h
  · exact ⟨u.hex ++ '-' :: filename, by simp⟩
  · exact h.trans (List.prefix_append _ _)

end ByteBattles.Api
