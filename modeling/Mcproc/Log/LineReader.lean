import Mcproc.Lib.Lines
import Mcproc.Lib.Utf8

namespace LineReader

def newline : UInt8 := 10
def carriageReturn : UInt8 := 13

def popIf (b : UInt8) (bytes : List UInt8) : List UInt8 :=
  if bytes.getLast? = some b then bytes.dropLast else bytes

def lineText (bytes : List UInt8) : String :=
  String.ofList (Utf8.fromUtf8Lossy (popIf carriageReturn (popIf newline bytes)))

def readUntil (bytes : List UInt8) : List UInt8 × List UInt8 :=
  (Lines.cut newline bytes).getD (bytes, [])

def nextLineLossy (bytes : List UInt8) : Option (String × List UInt8) :=
  if bytes = [] then none else some (lineText (readUntil bytes).1, (readUntil bytes).2)

-- Every read takes at least one byte, so the length of the file is fuel enough.
def readLines : Nat → List UInt8 → List String
  | 0, _ => []
  | fuel + 1, bytes =>
    match nextLineLossy bytes with
    | none => []
    | some (line, rest) => line :: readLines fuel rest

def fileLines (bytes : List UInt8) : List String := readLines bytes.length bytes

theorem popIf_snoc (bytes : List UInt8) (b : UInt8) : popIf b (bytes ++ [b]) = bytes := by
  simp [popIf]

theorem popIf_not_mem {b : UInt8} {bytes : List UInt8} (h : b ∉ bytes) : popIf b bytes = bytes := by
  simp only [popIf]
  split
  · next hl => exact absurd (List.mem_of_getLast? hl) h
  · rfl

theorem popIf_append {xs : List UInt8} {b : UInt8} (ys : List UInt8) (h : xs.getLast? ≠ some b) :
    popIf b (xs ++ ys) = xs ++ popIf b ys := by
  rcases List.eq_nil_or_concat ys with rfl | ⟨ys, y, rfl⟩
  · simp [popIf, h]
  · rw [List.concat_eq_append]
    by_cases hy : y = b
    · subst hy
      rw [← List.append_assoc, popIf_snoc, popIf_snoc]
    · simp [popIf, hy]

theorem lineText_snoc {bytes : List UInt8} (h : newline ∉ bytes) :
    lineText (bytes ++ [newline]) = lineText bytes := by
  rw [lineText, lineText, popIf_snoc, popIf_not_mem h]

theorem readLines_eq {fuel : Nat} {bytes : List UInt8} (h : bytes.length ≤ fuel) :
    readLines fuel bytes = (Lines.lines newline bytes).map lineText := by
  induction fuel generalizing bytes with
  | zero =>
    obtain rfl := List.eq_nil_of_length_eq_zero (Nat.le_zero.mp h)
    rfl
  | succ fuel ih =>
    rw [readLines, nextLineLossy, Lines.lines_eq]
    split
    · next hn =>
      split at hn
      · next he => subst he; rfl
      · cases hn
    · next line rest hs =>
      split at hs
      · cases hs
      · next hne =>
        cases hs
        simp only [readUntil]
        cases hc : Lines.cut newline bytes with
        | none =>
          have hfeed := Lines.feed_of_not_mem newline [] (Lines.cut_none newline hc)
          rw [List.nil_append] at hfeed
          have hnil : readLines fuel [] = [] := by cases fuel <;> rfl
          simp only [hfeed, hne, if_false, Option.getD_none, hnil, List.nil_append,
            List.map_cons, List.map_nil]
          rw [lineText_snoc (Lines.cut_none newline hc)]
        | some p =>
          obtain ⟨line, rest⟩ := p
          obtain ⟨body, rfl, hbody, rfl⟩ := Lines.cut_some newline hc
          have hlen : rest.length ≤ fuel := by
            simp only [List.length_append, List.length_singleton] at h
            omega
          rw [Lines.feed_line newline rest hbody, Option.getD_some, ih hlen, Lines.lines_eq]
          rfl

theorem fileLines_eq (bytes : List UInt8) :
    fileLines bytes = (Lines.lines newline bytes).map lineText :=
  readLines_eq (Nat.le_refl _)

example : fileLines [0x61, 13, 10, 10, 0x62] = ["a", "", "b"] := by decide

end LineReader
