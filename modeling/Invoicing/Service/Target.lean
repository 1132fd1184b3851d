import Invoicing.Text.Hexadecimal

/-!
Targets of requests. A target is a path, or a path behind a scheme and an
authority; a query or a fragment may follow. A route is looked for after the
escapes of a path are undone.
-/
namespace Invoicing.Service

open Text (hexValue?)

def isSchemeChar (c : Char) : Bool :=
  c.isAlphanum || c = '+' || c = '-' || c = '.' || c = '~'

/-- A query or a fragment starts. -/
def endsPath (c : Char) : Bool :=
  c = '?' || c = '#'

def endsAuthority (c : Char) : Bool :=
  c = '/' || endsPath c

/-- What stands behind a scheme and an authority, neither of which may be missing. -/
def dropAuthority? (target : List Char) : Option (List Char) :=
  match target.dropWhile isSchemeChar with
  | ':' :: '/' :: '/' :: c :: cs =>
    if endsAuthority c then none else some (cs.dropWhile (!endsAuthority ·))
  | _ => none

/-- The path of a target, as it is written. Behind an authority an empty path is the root, and a
target of another form has no path. -/
def pathOf (target : List Char) : List Char :=
  match target with
  | '/' :: _ => target.takeWhile (!endsPath ·)
  | _ =>
    match dropAuthority? target with
    | none => []
    | some cs => if (cs.head?.any (· = '/')) then cs.takeWhile (!endsPath ·) else ['/']

/-- The character of ASCII that two hexadecimal digits stand for. Escapes of `%`, `/` and `+` stay,
for what they stand for has a meaning of its own in a path. -/
def unescaped? (a b : Char) : Option Char := do
  let code := (← hexValue? a) * 16 + (← hexValue? b)
  let c := Char.ofNat code
  if code < 0x80 ∧ c ≠ '%' ∧ c ≠ '/' ∧ c ≠ '+' then some c else none

/-- A path with its escapes undone. Characters beyond ASCII, which no route has, stay escaped. -/
def unescape : List Char → List Char
  | '%' :: a :: b :: cs =>
    match unescaped? a b with
    | some c => c :: unescape cs
    | none => '%' :: unescape (a :: b :: cs)
  | c :: cs => c :: unescape cs
  | [] => []

/-- A path without escapes is as it is written. -/
theorem unescape_of_not_mem {cs : List Char} (h : '%' ∉ cs) : unescape cs = cs := by
  fun_induction unescape cs with
  | case1 => simp at h
  | case2 => simp at h
  | case3 c cs _ ih => rw [ih fun hm => h (List.mem_cons_of_mem c hm)]
  | case4 => rfl

end Invoicing.Service
