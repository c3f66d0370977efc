import Mathlib.Data.List.DropRight

namespace Validation

def isWhitespace (c : Char) : Bool :=
  (0x09 ≤ c.toNat && c.toNat ≤ 0x0d) || c.toNat == 0x20 || c.toNat == 0x85 || c.toNat == 0xa0 ||
  c.toNat == 0x1680 || (0x2000 ≤ c.toNat && c.toNat ≤ 0x200a) || c.toNat == 0x2028 ||
  c.toNat == 0x2029 || c.toNat == 0x202f || c.toNat == 0x205f || c.toNat == 0x3000

def isControl (c : Char) : Bool := c.toNat ≤ 0x1f || (0x7f ≤ c.toNat && c.toNat ≤ 0x9f)

def trimEnd (cs : List Char) : List Char := (cs.reverse.dropWhile isWhitespace).reverse

def trim (cs : List Char) : List Char := trimEnd (cs.dropWhile isWhitespace)

def invalidChars : List Char := [':', '*', '?', '"', '<', '>', '|', '\x00']

def windowsReserved : List String :=
  ["CON", "PRN", "AUX", "NUL", "COM1", "COM2", "COM3", "COM4", "COM5", "COM6", "COM7", "COM8",
   "COM9", "LPT1", "LPT2", "LPT3", "LPT4", "LPT5", "LPT6", "LPT7", "LPT8", "LPT9"]

def validateName (kind : String) (maxLen : Nat) (name : String) : Except String Unit :=
  if name = "" then .error (kind ++ " name cannot be empty")
  else if name = "." ∨ name = ".." then .error (kind ++ " name cannot be '.' or '..'")
  else if '/' ∈ name.toList ∨ '\\' ∈ name.toList then
    .error (kind ++ " name cannot contain path separators (/ or \\)")
  else match name.toList.find? (· ∈ invalidChars) with
    | some c => .error (kind ++ " name cannot contain '" ++ c.toString ++ "'")
    | none =>
      if name.toList ≠ trim name.toList then
        .error (kind ++ " name cannot have leading or trailing whitespace")
      else if name.toList.any isControl then
        .error (kind ++ " name cannot contain control characters")
      else if maxLen < name.utf8ByteSize then
        .error (kind ++ " name cannot exceed " ++ toString maxLen ++ " characters")
      else .ok ()

-- Only ASCII letters have an uppercase form inside a reserved word.
def validateProjectName (name : String) : Except String Unit :=
  match validateName "Project" 255 name with
  | .error e => .error e
  | .ok () =>
    if String.ofList (name.toList.map Char.toUpper) ∈ windowsReserved then
      .error ("'" ++ name ++ "' is a reserved name on Windows")
    else .ok ()

def validateProcessName (name : String) : Except String Unit := validateName "Process" 100 name

def ValidProject (name : String) : Prop := validateProjectName name = .ok ()

def ValidProcess (name : String) : Prop := validateProcessName name = .ok ()

instance (name : String) : Decidable (ValidProject name) :=
  match h : validateProjectName name with
  | .ok () => isTrue h
  | .error _ => isFalse (by simp [ValidProject, h])

instance (name : String) : Decidable (ValidProcess name) :=
  match h : validateProcessName name with
  | .ok () => isTrue h
  | .error _ => isFalse (by simp [ValidProcess, h])

theorem trimEnd_trimEnd (cs : List Char) : trimEnd (trimEnd cs) = trimEnd cs := by
  rw [trimEnd, trimEnd, List.reverse_reverse, List.dropWhile_idempotent]

theorem validateName_ok {kind : String} {maxLen : Nat} {name : String}
    (h : validateName kind maxLen name = .ok ()) :
    name ≠ "" ∧ name ≠ "." ∧ name ≠ ".." ∧ '/' ∉ name.toList := by
  simp only [validateName] at h
  split at h
  · cases h
  · next hne =>
    split at h
    · cases h
    · next hdot =>
      split at h
      · cases h
      · next hsep =>
        exact ⟨hne, fun e => hdot (Or.inl e), fun e => hdot (Or.inr e), fun e => hsep (Or.inl e)⟩

theorem ValidProject.shape {name : String} (h : ValidProject name) :
    name ≠ "" ∧ name ≠ "." ∧ name ≠ ".." ∧ '/' ∉ name.toList := by
  simp only [ValidProject, validateProjectName] at h
  split at h
  · cases h
  · next hv => exact validateName_ok hv

example : ValidProject "my-project" := by decide

example : ¬ ValidProject "con" := by decide

end Validation
