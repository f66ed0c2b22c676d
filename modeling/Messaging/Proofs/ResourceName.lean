import Messaging.ResourceName
import Mathlib.Data.List.TakeWhile

/-! # Ids and names of schemas

The name of a resource determines its id (`Resource.nameOf_inj`). The id of a schema is what follows
the last slash of what it is referred to by (`isLastSegment_iff`). So a schema that is referred to by
its name is found under its id only if the id has no slash (`schemaId_nameOf`,
`schemaId_of_notMem`). -/

namespace Messaging

theorem afterLastSlash_append_slash (front back : List Char) :
    afterLastSlash (front ++ '/' :: back) = afterLastSlash back := by
  have hrev : (front ++ '/' :: back).reverse = back.reverse ++ '/' :: front.reverse := by simp
  unfold afterLastSlash
  rw [hrev]
  generalize back.reverse = cs
  congr 1
  induction cs with
  | nil => simp
  | cons c rest ih => simp only [List.cons_append, List.takeWhile_cons, ih]

theorem slash_notMem_afterLastSlash (cs : List Char) : '/' ∉ afterLastSlash cs := by
  intro h
  have := List.mem_takeWhile_imp (List.mem_reverse.mp h)
  simp at this

theorem afterLastSlash_of_notMem {cs : List Char} (h : '/' ∉ cs) : afterLastSlash cs = cs := by
  unfold afterLastSlash
  rw [List.takeWhile_eq_self_iff.mpr, List.reverse_reverse]
  intro c hc
  have hne : c ≠ '/' := fun he => h (he ▸ List.mem_reverse.mp hc)
  simpa using hne

/-- An id without a slash is the id that it refers to. -/
theorem schemaId_of_notMem {id : String} (h : '/' ∉ id.toList) : schemaId id = id := by
  rw [schemaId, afterLastSlash_of_notMem h, String.ofList_toList]

theorem schemaId_schemaId (reference : String) :
    schemaId (schemaId reference) = schemaId reference :=
  schemaId_of_notMem (by
    rw [schemaId, String.toList_ofList]
    exact slash_notMem_afterLastSlash _)

/-- An id is the last segment of a path: there is no slash in it, and it is the whole path or stands
behind a slash. -/
def IsLastSegment (id path : String) : Prop :=
  '/' ∉ id.toList ∧ (path = id ∨ ∃ front, path = front ++ "/" ++ id)

theorem eq_or_append_afterLastSlash (cs : List Char) :
    cs = afterLastSlash cs ∨ ∃ front, cs = front ++ '/' :: afterLastSlash cs := by
  have hsplit : cs = (cs.reverse.dropWhile (· ≠ '/')).reverse ++ afterLastSlash cs := by
    rw [afterLastSlash, ← List.reverse_append, List.takeWhile_append_dropWhile,
      List.reverse_reverse]
  cases hd : cs.reverse.dropWhile (· ≠ '/') with
  | nil =>
    rw [hd] at hsplit
    exact .inl hsplit
  | cons c rest =>
    have hc : c = '/' := by
      have hne : cs.reverse.dropWhile (· ≠ '/') ≠ [] := by
        rw [hd]
        exact List.cons_ne_nil c rest
      have h := List.head_dropWhile_not (· ≠ '/') hne
      simp only [hd, List.head_cons] at h
      simpa using h
    rw [hd, List.reverse_cons, hc, List.append_assoc] at hsplit
    exact .inr ⟨rest.reverse, hsplit⟩

/-- The id of a schema is the last segment of what it is referred to by. -/
theorem isLastSegment_iff {id path : String} : IsLastSegment id path ↔ id = schemaId path := by
  constructor
  · rintro ⟨hid, rfl | ⟨front, rfl⟩⟩
    · exact (schemaId_of_notMem hid).symm
    · have hlist : (front ++ "/" ++ id).toList = front.toList ++ '/' :: id.toList := by
        simp [String.toList_append]
      rw [schemaId, hlist, afterLastSlash_append_slash, afterLastSlash_of_notMem hid,
        String.ofList_toList]
  · rintro rfl
    refine ⟨by rw [schemaId, String.toList_ofList]; exact slash_notMem_afterLastSlash _, ?_⟩
    rcases eq_or_append_afterLastSlash path.toList with h | ⟨front, h⟩
    · exact .inl (by rw [schemaId, ← h, String.ofList_toList])
    · refine .inr ⟨String.ofList front, String.toList_injective ?_⟩
      rw [String.toList_append, String.toList_append, String.toList_ofList, schemaId,
        String.toList_ofList]
      simpa using h

namespace Resource

theorem toList_nameOf (r : Resource) (project id : String) :
    (r.nameOf project id).toList =
      ("projects/" ++ project ++ "/" ++ r.word ++ "s").toList ++ '/' :: id.toList := by
  have hs : ("s/" : String) = "s" ++ "/" := by decide
  simp only [nameOf, hs, String.toList_append, List.append_assoc]
  rfl

/-- The name of a schema refers to the id that its id refers to. -/
theorem schemaId_nameOf (project id : String) :
    schemaId (schema.nameOf project id) = schemaId id := by
  rw [schemaId, toList_nameOf, afterLastSlash_append_slash, schemaId]

theorem nameOf_inj {r : Resource} {project id id' : String}
    (h : r.nameOf project id = r.nameOf project id') : id = id' := by
  have h' := congrArg String.toList h
  rw [toList_nameOf, toList_nameOf, List.append_cancel_left_eq] at h'
  exact String.toList_injective (List.cons.inj h').2

theorem nameOf_ne_empty (r : Resource) (project id : String) : r.nameOf project id ≠ "" := by
  intro h
  have h' := congrArg String.toList h
  rw [toList_nameOf] at h'
  simp at h'

end Resource

end Messaging
