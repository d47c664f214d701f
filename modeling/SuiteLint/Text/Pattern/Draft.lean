import SuiteLint.Text.Pattern.Escape
import SuiteLint.Text.Pattern.Flag
import SuiteLint.Text.Pattern.Width

/-! A pattern while it is read: the branch that grows, and the groups that are open around it. -/
namespace SuiteLint.Text.Pattern

inductive Repeatable where
  | item | anchor | repeated
  deriving DecidableEq

/-- One branch: what was read before the last element, and that element. -/
structure Branch where
  done : Expr
  last : Option (Expr × Repeatable)

def Expr.before : Expr → Expr → Expr
  | .empty, b => b
  | a, b => .seq a b

namespace Branch

def new : Branch := ⟨.empty, none⟩

def close (b : Branch) : Expr :=
  match b.last with
  | some (e, _) => b.done.before e
  | none => b.done

def push (b : Branch) (e : Expr) (r : Repeatable) : Branch := ⟨b.close, some (e, r)⟩

end Branch

/-- What an opening parenthesis asks for. -/
inductive Opening where
  | plain
  | capture (n : Nat)
  | settled
  | ahead (negated : Bool)
  | behind (negated : Bool)
  | choice (n : Nat)
  deriving DecidableEq

structure Frame where
  opening : Opening
  place : Nat
  flags : List Flag
  finished : List Expr
  branch : Branch
  behind : Option Nat

structure Draft where
  flags : List Flag
  /-- The open groups, the innermost first. -/
  frames : List Frame
  /-- The branches before the present one, the latest first. -/
  finished : List Expr
  branch : Branch
  groups : Nat
  names : List (List Char × Nat)
  /-- The widths of the groups that were closed. -/
  widths : List (Nat × Width)
  /-- The number of groups before the outermost open look behind. -/
  behind : Option Nat
  /-- The groups that conditions ask for, and where. -/
  asked : List (Nat × Nat)

namespace Draft

def new : Draft := ⟨[], [], [], .new, 0, [], [], none, []⟩

def push (d : Draft) (e : Expr) (r : Repeatable) : Draft := { d with branch := d.branch.push e r }

def isPlain (d : Draft) : Bool := d.flags.contains .plain

def folding (d : Draft) : Folding := Pattern.folding d.flags

def pushCode (d : Draft) (code : Nat) : Draft := d.push (single d.folding false code) .item

def isFresh (d : Draft) : Bool :=
  d.frames.isEmpty && d.finished.isEmpty && d.branch.last.isNone && d.branch.done == .empty

def isClosed (d : Draft) (n : Nat) : Bool := (d.widths.lookup n).isSome

def checkBehind (d : Draft) (n place : Nat) : Except PatternError Unit :=
  match d.behind with
  | none => .ok ()
  | some limit =>
    if !d.isClosed n then faultAt .openGroup place
    else if limit < n then faultAt .groupBehind place
    else .ok ()

def again (d : Draft) (n : Nat) : Draft := d.push (.again n d.folding) .item

def enter (d : Draft) (opening : Opening) (place : Nat) (flags : List Flag) : Draft :=
  let isBehind := match opening with
    | .behind _ => true
    | _ => false
  { d with
    flags
    frames := ⟨opening, place, d.flags, d.finished, d.branch, d.behind⟩ :: d.frames
    finished := []
    branch := .new
    behind := if isBehind then d.behind.or (some d.groups) else d.behind }

def split (d : Draft) : Draft :=
  { d with finished := d.branch.close :: d.finished, branch := .new }

def choices (d : Draft) : Expr := d.finished.foldl (fun e branch => .alt branch e) d.branch.close

def leave (d : Draft) (f : Frame) (frames : List Frame) : Draft :=
  let e := d.choices
  let w := e.width d.widths
  let outer : Draft :=
    { d with
      flags := f.flags, frames, finished := f.finished, branch := f.branch, behind := f.behind }
  match f.opening with
  | .plain => outer.push e .item
  | .capture n => { outer with widths := (n, w) :: d.widths }.push (.group n e) .item
  | .settled => outer.push (.first e) .item
  | .ahead negated => outer.push (.ahead negated e) .item
  | .behind negated => outer.push (.behind negated w.least e) .item
  | .choice n =>
    match d.finished with
    | yes :: _ => outer.push (.given n yes d.branch.close) .item
    | [] => outer.push (.given n d.branch.close .empty) .item

end Draft

end SuiteLint.Text.Pattern
