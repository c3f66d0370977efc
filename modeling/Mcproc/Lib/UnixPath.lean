import Mathlib.Data.List.Basic
import Mcproc.Lib.Utf8

abbrev OsString := List UInt8

namespace OsString

def slash : UInt8 := 0x2f
def dot : UInt8 := 0x2e

def Plain (c : OsString) : Prop := c ≠ [] ∧ c ≠ [dot] ∧ c ≠ [dot, dot] ∧ slash ∉ c

instance (c : OsString) : Decidable (Plain c) := inferInstanceAs (Decidable (_ ∧ _))

-- A name that only begins with its dot has no extension.
def extension (name : OsString) : Option OsString :=
  if name = [dot, dot] then none
  else
    match name.reverse.dropWhile (· ≠ dot) with
    | [] | [_] => none
    | _ :: _ :: _ => some (name.reverse.takeWhile (· ≠ dot)).reverse

def fileStem (name : OsString) : OsString :=
  if name = [dot, dot] then name
  else
    match name.reverse.dropWhile (· ≠ dot) with
    | [] | [_] => name
    | _ :: b :: before => (b :: before).reverse

theorem split_dot {stem e : OsString} (hs : stem ≠ []) (he : e ≠ []) (hd : dot ∉ e) :
    extension (stem ++ dot :: e) = some e ∧ fileStem (stem ++ dot :: e) = stem := by
  obtain ⟨b, before, hb⟩ := List.exists_cons_of_ne_nil (mt List.reverse_eq_nil_iff.mp hs)
  have hne : stem ++ dot :: e ≠ [dot, dot] := by
    intro h
    have hlen := congrArg List.length h
    have hs' := List.length_pos_of_ne_nil hs
    have he' := List.length_pos_of_ne_nil he
    simp only [List.length_append, List.length_cons, List.length_nil] at hlen
    omega
  have hrev : (stem ++ dot :: e).reverse = e.reverse ++ dot :: b :: before := by
    simp [hb]
  have hall : ∀ x ∈ e.reverse, decide (x ≠ dot) = true := fun x hx =>
    decide_eq_true fun h => hd (h ▸ List.mem_reverse.mp hx)
  have hdrop : (e.reverse ++ dot :: b :: before).dropWhile (· ≠ dot) = dot :: b :: before := by
    rw [List.dropWhile_append_of_pos hall]
    simp
  have htake : (e.reverse ++ dot :: b :: before).takeWhile (· ≠ dot) = e.reverse := by
    rw [List.takeWhile_append_of_pos hall]
    simp
  have hback : (b :: before).reverse = stem := by rw [← hb, List.reverse_reverse]
  simp only [extension, fileStem, if_neg hne, hrev, hdrop, htake, List.reverse_reverse, hback,
    and_self]

theorem extension_some {name e : OsString} (h : extension name = some e) :
    ∃ stem, stem ≠ [] ∧ name = stem ++ dot :: e := by
  simp only [extension] at h
  split at h
  · cases h
  · split at h
    · cases h
    · cases h
    · next d b before hd =>
      cases h
      have hdot : d = dot := by
        have := List.head?_dropWhile_not (· ≠ dot) name.reverse
        rw [hd] at this
        simpa using this
      subst hdot
      have hname : name = (name.reverse.takeWhile (· ≠ dot) ++ dot :: b :: before).reverse := by
        rw [← hd, List.takeWhile_append_dropWhile, List.reverse_reverse]
      refine ⟨(b :: before).reverse, by simp, ?_⟩
      calc name = _ := hname
        _ = _ := by simp

theorem ascii_dot : Utf8.Ascii '.' := ⟨by decide, by decide⟩

theorem ascii_slash : Utf8.Ascii '/' := ⟨by decide, by decide⟩

theorem plain_encode {s : String} (hne : s ≠ "") (hd : s ≠ ".") (hdd : s ≠ "..")
    (hs : '/' ∉ s.toList) : Plain (Utf8.encode s) := by
  have hof {cs : List Char} (h : s.toList = cs) : s = String.ofList cs := by
    rw [← h, String.ofList_toList]
  refine ⟨fun h => hne (hof (Utf8.encode_nil h)), fun h => ?_, fun h => ?_, fun h => ?_⟩
  · obtain ⟨cs, h1, h⟩ := Utf8.encode_ascii_cons h (by decide)
    obtain rfl := Utf8.encode_nil h
    exact hd (hof h1)
  · obtain ⟨cs, h1, h2⟩ := Utf8.encode_ascii_cons h (by decide)
    obtain ⟨cs', rfl, h3⟩ := Utf8.encode_ascii_cons h2 (by decide)
    obtain rfl := Utf8.encode_nil h3
    exact hdd (hof h1)
  · obtain ⟨c, hc, hmem⟩ := List.mem_flatMap.mp h
    have hslash := (Utf8.encodeChar_ascii hmem (by decide)).1
    rw [← Char.ofNat_toNat c, hslash] at hc
    exact hs hc

theorem plain_encode_long {s : String} (hlen : 3 ≤ s.toList.length) (hs : '/' ∉ s.toList) :
    Plain (Utf8.encode s) := by
  have hne {t : String} (ht : t.toList.length < 3) : s ≠ t := by
    rintro rfl
    exact absurd hlen (Nat.not_le.mpr ht)
  exact plain_encode (hne (by decide)) (hne (by decide)) (hne (by decide)) hs

theorem lossy_ne {name : OsString} (h : Plain name) :
    String.ofList (Utf8.fromUtf8Lossy name) ≠ "" ∧ String.ofList (Utf8.fromUtf8Lossy name) ≠ "." ∧
      String.ofList (Utf8.fromUtf8Lossy name) ≠ ".." ∧
      '/' ∉ (String.ofList (Utf8.fromUtf8Lossy name)).toList := by
  obtain ⟨hne, hd, hdd, hs⟩ := h
  have hto (cs : List Char) (h : String.ofList (Utf8.fromUtf8Lossy name) = String.ofList cs) :
      Utf8.fromUtf8Lossy name = cs := by
    rw [← String.toList_ofList (l := cs), ← h, String.toList_ofList]
  refine ⟨fun h => hne (Utf8.lossy_nil (hto [] h)), fun h => ?_, fun h => ?_, fun h => ?_⟩
  · obtain ⟨rest, h1, h⟩ := Utf8.lossy_cons ascii_dot (hto ['.'] h)
    obtain rfl := Utf8.lossy_nil h
    exact hd h1
  · obtain ⟨rest, h1, h2⟩ := Utf8.lossy_cons ascii_dot (hto ['.', '.'] h)
    obtain ⟨rest', rfl, h3⟩ := Utf8.lossy_cons ascii_dot h2
    obtain rfl := Utf8.lossy_nil h3
    exact hdd h1
  · rw [String.toList_ofList] at h
    exact hs (Utf8.mem_of_mem_lossy ascii_slash h)

end OsString

structure UnixPath where
  root : Bool
  parts : List OsString
  deriving DecidableEq, Repr

namespace UnixPath

open OsString (slash dot Plain)

def pieces (s : OsString) : List OsString :=
  (s.splitOn slash).filter fun c => c ≠ [] ∧ c ≠ [dot]

def child (p : UnixPath) (name : OsString) : UnixPath := { p with parts := p.parts ++ [name] }

def join (p : UnixPath) (s : OsString) : UnixPath :=
  if s.head? = some slash then ⟨true, pieces s⟩ else { p with parts := p.parts ++ pieces s }

def le (p q : UnixPath) : Bool := decide (p.parts ≤ q.parts)

def toBytes (p : UnixPath) : OsString :=
  (if p.root then [slash] else []) ++ List.intercalate [slash] p.parts

def toStringLossy (p : UnixPath) : String := String.ofList (Utf8.fromUtf8Lossy p.toBytes)

def Unicode (p : UnixPath) : Prop := ∀ c ∈ p.parts, ∃ s : String, c = Utf8.encode s

theorem Unicode.child {p : UnixPath} (h : p.Unicode) (s : String) :
    (p.child (Utf8.encode s)).Unicode := by
  intro c hc
  rcases List.mem_append.mp hc with hc | hc
  · exact h c hc
  · exact ⟨s, List.mem_singleton.mp hc⟩

theorem intercalate_encode {cs : List OsString} (h : ∀ c ∈ cs, ∃ s : String, c = Utf8.encode s) :
    ∃ t : String, List.intercalate [slash] cs = Utf8.encode t := by
  induction cs with
  | nil => exact ⟨"", rfl⟩
  | cons c cs ih =>
    obtain ⟨s, rfl⟩ := h c List.mem_cons_self
    obtain ⟨t, ht⟩ := ih fun d hd => h d (List.mem_cons_of_mem _ hd)
    cases cs with
    | nil => exact ⟨s, by simp [List.intercalate]⟩
    | cons d ds =>
      refine ⟨s ++ "/" ++ t, ?_⟩
      have hslash : Utf8.encode "/" = [slash] := by decide
      rw [Utf8.encode_append, Utf8.encode_append, ← ht, hslash]
      simp [List.intercalate]

theorem Unicode.encode_lossy {p : UnixPath} (h : p.Unicode) :
    Utf8.encode p.toStringLossy = p.toBytes := by
  obtain ⟨t, ht⟩ := intercalate_encode h
  obtain ⟨u, hu⟩ : ∃ u : String, p.toBytes = Utf8.encode u := by
    rw [toBytes, ht]
    split
    · refine ⟨"/" ++ t, ?_⟩
      have hslash : Utf8.encode "/" = [slash] := by decide
      rw [Utf8.encode_append, hslash]
    · exact ⟨t, rfl⟩
  rw [toStringLossy, hu, Utf8.lossy_encode, String.ofList_toList]

theorem join_plain {p : UnixPath} {s : OsString} (h : Plain s) : p.join s = p.child s := by
  obtain ⟨hne, hd, -, hs⟩ := h
  have hhead : s.head? ≠ some slash := fun e => hs (List.mem_of_head? e)
  have hpieces : pieces s = [s] := by
    simp [pieces, List.splitOn_eq_singleton hs, hne, hd]
  rw [join, if_neg hhead, hpieces]
  rfl

end UnixPath
