import MechanicsCore.Mime.Message

/-! Header lists: `header_value` reads the last header of a name, `set_header`
writes the first, names being compared without regard to case. -/
namespace MechanicsCore.Mime
open MechanicsCore.Library Text

theorem headerMatches_iff {a b : Text} : headerMatches a b = true ↔ toAsciiLowercase a = toAsciiLowercase b := by
  simp [headerMatches,eqIgnoreAsciiCase]

def namedHeaders (headers : List Header) (name : Text) : List Header :=
  headers.filter fun header => headerMatches header.name name

theorem namedHeaders_none {headers : List Header} {name : Text}
    (apart : ∀ header ∈ headers, headerMatches header.name name = false) : namedHeaders headers name = [] :=
  List.filter_eq_nil_iff.mpr fun header member => Bool.eq_false_iff.mp (apart header member)

theorem headerValue_eq (headers : List Header) (name : Text) :
    headerValue headers name = (namedHeaders headers name).getLast?.map Header.value := by
  unfold headerValue namedHeaders
  rw [← List.head?_filter,List.filter_reverse,List.head?_reverse]

theorem hasHeader_iff (headers : List Header) (name : Text) :
    hasHeader headers name = true ↔ namedHeaders headers name ≠ [] := by
  rw [hasHeader,headerValue_eq,Option.isSome_map,List.getLast?_isSome]

/-- Setting a header replaces the first one of that name, or adds one. -/
theorem namedHeaders_setHeader (headers : List Header) (name value : Text) :
    namedHeaders (setHeader headers name value) name =
      match namedHeaders headers name with
      | [] => [⟨name,value⟩]
      | first::rest => {first with value := value}::rest := by
  induction headers with
  | nil => simp [setHeader,namedHeaders,headerMatches,eqIgnoreAsciiCase]
  | cons header headers ih =>
    unfold namedHeaders at ih ⊢
    rw [setHeader]
    split
    · rename_i same
      simp [same]
    · rename_i other
      rw [List.filter_cons_of_neg (by simpa using other),List.filter_cons_of_neg (by simpa using other),ih]

theorem namedHeaders_setHeader_other {name other : Text} (apart : headerMatches name other = false)
    (headers : List Header) (value : Text) :
    namedHeaders (setHeader headers name value) other = namedHeaders headers other := by
  unfold namedHeaders
  induction headers with
  | nil => simp [setHeader,apart]
  | cons header headers ih =>
    rw [setHeader]
    split
    · rename_i same
      have elsewhere : headerMatches header.name other = false := by
        rw [← apart,Bool.eq_iff_iff,headerMatches_iff,headerMatches_iff,headerMatches_iff.mp same]
      rw [List.filter_cons_of_neg (by simp [elsewhere]),List.filter_cons_of_neg (by simp [elsewhere])]
    · simp only [List.filter_cons,ih]

theorem mem_setHeader (headers : List Header) (name value : Text) :
    ∃ header ∈ setHeader headers name value, header.value = value := by
  induction headers with
  | nil => exact ⟨⟨name,value⟩,by simp [setHeader],rfl⟩
  | cons header headers ih =>
    rw [setHeader]
    split
    · exact ⟨{header with value := value},List.mem_cons_self,rfl⟩
    · obtain ⟨found,member,same⟩ := ih
      exact ⟨found,List.mem_cons_of_mem _ member,same⟩

theorem setHeader_ne_nil (headers : List Header) (name value : Text) : setHeader headers name value ≠ [] := by
  obtain ⟨header,member,_⟩ := mem_setHeader headers name value
  exact List.ne_nil_of_mem member

theorem mem_setHeader_other {header : Header} {name : Text} (apart : headerMatches header.name name = false)
    (headers : List Header) (value : Text) : header ∈ setHeader headers name value ↔ header ∈ headers := by
  have among : ∀ all : List Header, header ∈ all ↔ header ∈ namedHeaders all header.name := by
    intro all
    rw [namedHeaders,List.mem_filter]
    simp [headerMatches,eqIgnoreAsciiCase]
  have back : headerMatches name header.name = false := by
    rw [← apart,Bool.eq_iff_iff,headerMatches_iff,headerMatches_iff,eq_comm]
  rw [among,namedHeaders_setHeader_other back,← among]

theorem of_mem_setHeader {headers : List Header} {name value : Text} {header : Header}
    (member : header ∈ setHeader headers name value) : header ∈ headers ∨ header.value = value := by
  induction headers with
  | nil =>
    rw [setHeader,List.mem_singleton] at member
    exact .inr (congrArg Header.value member)
  | cons first headers ih =>
    rw [setHeader] at member
    split at member
    · rcases List.mem_cons.mp member with rfl | later
      · exact .inr rfl
      · exact .inl (List.mem_cons_of_mem _ later)
    · rcases List.mem_cons.mp member with rfl | later
      · exact .inl List.mem_cons_self
      · exact (ih later).imp (List.mem_cons_of_mem _) id

theorem headerValue_setHeader_other {name other : Text} (apart : headerMatches name other = false)
    (headers : List Header) (value : Text) :
    headerValue (setHeader headers name value) other = headerValue headers other := by
  rw [headerValue_eq,headerValue_eq,namedHeaders_setHeader_other apart]

theorem headerValue_cons_other {header : Header} {name : Text} (apart : headerMatches header.name name = false)
    (headers : List Header) : headerValue (header::headers) name = headerValue headers name := by
  rw [headerValue_eq,headerValue_eq,namedHeaders,List.filter_cons_of_neg (by simp [apart])]
  rfl

/-- What was set is read back where no second header of that name follows the first. -/
theorem headerValue_setHeader_single {headers : List Header} {name : Text}
    (single : (namedHeaders headers name).length ≤ 1) (value : Text) :
    headerValue (setHeader headers name value) name = some value := by
  rw [headerValue_eq,namedHeaders_setHeader]
  cases named : namedHeaders headers name with
  | nil => rfl
  | cons first rest =>
    have empty : rest = [] := by simpa [named] using single
    rw [empty]
    rfl

/-- Behind a second header of that name the value set is not seen. -/
theorem headerValue_setHeader_several {headers : List Header} {name : Text}
    (several : 1 < (namedHeaders headers name).length) (value : Text) :
    headerValue (setHeader headers name value) name = headerValue headers name := by
  rw [headerValue_eq,headerValue_eq,namedHeaders_setHeader]
  cases named : namedHeaders headers name with
  | nil => simp [named] at several
  | cons first rest =>
    obtain ⟨second,more,rfl⟩ := List.exists_cons_of_ne_nil (l := rest) (by rintro rfl; simp [named] at several)
    simp [List.getLast?_cons_cons]

theorem headerValue_setHeader_iff (headers : List Header) (name value : Text) :
    headerValue (setHeader headers name value) name = some value ↔
      (namedHeaders headers name).length ≤ 1 ∨ headerValue headers name = some value := by
  by_cases single : (namedHeaders headers name).length ≤ 1
  · simp [headerValue_setHeader_single single,single]
  · rw [headerValue_setHeader_several (Nat.lt_of_not_le single)]
    simp [single]

end MechanicsCore.Mime
