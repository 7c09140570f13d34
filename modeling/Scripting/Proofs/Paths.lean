import Mathlib.Data.String.Basic
import Scripting.Files

/-!
# Files named by one component

A name in which no slash stands is a path of one component. Where a path leads to a file,
its text is what the file was written from.

Main statements: `Path.components_of_name`, `Files.read_of_find`.
-/

namespace Scripting

namespace Path

open String (utf8Len)

/-- Text in which no further slash follows is one component more. -/
theorem splitOnAux_of_not_mem
    (seen rest : List Char)
    (apart : '/' ∉ rest)
    (parts : List String) :
    (String.ofList (seen ++ rest)).splitOnAux "/" 0 ⟨utf8Len seen⟩ 0 parts =
      parts.reverse ++ [String.ofList (seen ++ rest)] := by
  induction rest generalizing seen with
  | nil =>
      have atEnd := (String.atEnd_of_valid seen []).mpr rfl
      have whole := String.extract_of_valid [] seen []
      rw [String.splitOnAux, if_pos atEnd]
      simpa using whole
  | cons first rest inductionHypothesis =>
      have differs : first ≠ '/' := fun same => apart (same ▸ List.mem_cons_self)
      have behind : '/' ∉ rest := fun member => apart (List.mem_cons_of_mem _ member)
      have goesOn := inductionHypothesis (seen ++ [first]) behind
      have atEnd := mt (String.atEnd_of_valid seen (first :: rest)).mp (List.cons_ne_nil _ _)
      have here := String.get_of_valid seen (first :: rest)
      have next := String.next_of_valid seen first rest
      have slash : String.Pos.Raw.get "/" 0 = '/' := rfl
      have still : String.Pos.Raw.unoffsetBy ⟨utf8Len seen⟩ 0 = ⟨utf8Len seen⟩ := rfl
      rw [String.splitOnAux, if_neg atEnd, here, slash, still, next]
      simpa [differs] using goesOn

/-- A name is the only component of the path that it is. -/
theorem components_of_name
    {name : String}
    (apart : '/' ∉ name.toList)
    (named : name ≠ "") :
    components name = [name] := by
  have split := splitOnAux_of_not_mem [] name.toList apart []
  rw [List.nil_append, String.ofList_toList] at split
  have whole : name.splitOn "/" = [name] := split
  simp [components, whole, named]

end Path

namespace Files

variable {files : Files} {path : String}

theorem isFile_of_find
    {content : ByteArray}
    (find : files.find path = .ok (.file content)) :
    files.isFile path = true := by
  unfold isFile
  rw [find]

/-- What has been written into a file as text is read from it. -/
theorem read_of_find
    {text : String}
    (find : files.find path = .ok (.file text.toUTF8)) :
    files.read path = .ok text := by
  have decoded : String.fromUTF8? text.toUTF8 = some text := by
    simp only [String.fromUTF8?, String.toUTF8_eq_toByteArray, dif_pos text.isValidUTF8]
    rfl
  unfold read
  rw [find]
  simp only [bind, Except.bind, decoded]
  rfl

end Files
end Scripting
