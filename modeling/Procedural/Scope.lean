/-!
# Scopes

A scope is a stack of frames over a root frame that is never removed.  A lookup
starts at the newest frame and continues in the frame that encloses it, which need
not be the one below it: a frame records how many frames below it are skipped.  The
identity of a frame is the number of frames below it, so the root has identity zero.
-/

namespace Procedural

/-- Bindings of variables by name, and of functions by name and number of arguments. -/
structure Frame (V F : Type) where
  variableBindings : List (String × V)
  functionBindings : List ((String × Nat) × F)
  skip : Nat

namespace Frame

variable {V F : Type}

def empty (skip : Nat) : Frame V F :=
  ⟨[], [], skip⟩

def findVariable? (frame : Frame V F) (name : String) : Option V :=
  frame.variableBindings.lookup name

def findFunction? (frame : Frame V F) (name : String) (arity : Nat) : Option F :=
  frame.functionBindings.lookup (name, arity)

/-- Binds a variable; an earlier binding of the name is hidden. -/
def defineVariable (frame : Frame V F) (name : String) (value : V) : Frame V F :=
  { frame with variableBindings := (name, value) :: frame.variableBindings }

/-- Binds a function; an earlier binding of the name and arity is hidden. -/
def defineFunction (frame : Frame V F) (name : String) (arity : Nat) (value : F) : Frame V F :=
  { frame with functionBindings := ((name, arity), value) :: frame.functionBindings }

/-- Changes the first value that a name is bound to in a list of bindings. -/
def updateFirst (name : String) (change : V → V) : List (String × V) → List (String × V)
  | [] => []
  | (other, value) :: rest =>
      if name = other then (other, change value) :: rest
      else (other, value) :: updateFirst name change rest

def updateVariable (frame : Frame V F) (name : String) (change : V → V) : Frame V F :=
  { frame with variableBindings := updateFirst name change frame.variableBindings }

end Frame

/-- A root frame and the frames above it, the newest first. -/
structure Scope (V F : Type) where
  inner : List (Frame V F)
  root : Frame V F

namespace Scope

variable {V F : Type}

/-- The scope of the root frame alone. -/
def empty : Scope V F :=
  ⟨[], .empty 0⟩

/-- The identity of the newest frame. -/
def current (scope : Scope V F) : Nat :=
  scope.inner.length

def depth (scope : Scope V F) : Nat :=
  scope.inner.length + 1

/-- The newest frame, which definitions go to. -/
def newest (scope : Scope V F) : Frame V F :=
  scope.inner.head?.getD scope.root

/-- Adds a frame that is enclosed by the frame of a given identity. -/
def pushUnder (scope : Scope V F) (outer : Nat) : Scope V F :=
  { scope with inner := .empty (scope.current - outer) :: scope.inner }

def push (scope : Scope V F) : Scope V F :=
  scope.pushUnder scope.current

/-- Removes the newest frame; the root stays. -/
def pop (scope : Scope V F) : Scope V F :=
  { scope with inner := scope.inner.tail }

def modifyNewest (scope : Scope V F) (change : Frame V F → Frame V F) : Scope V F :=
  match scope.inner with
  | [] => { scope with root := change scope.root }
  | frame :: rest => { scope with inner := change frame :: rest }

def defineVariable (scope : Scope V F) (name : String) (value : V) : Scope V F :=
  scope.modifyNewest fun frame => frame.defineVariable name value

def defineFunction (scope : Scope V F) (name : String) (arity : Nat) (value : F) : Scope V F :=
  scope.modifyNewest fun frame => frame.defineFunction name arity value

/-- The newest frame itself binds the variable. -/
def definesVariable (scope : Scope V F) (name : String) : Bool :=
  (scope.newest.findVariable? name).isSome

def definesFunction (scope : Scope V F) (name : String) (arity : Nat) : Bool :=
  (scope.newest.findFunction? name arity).isSome

/-- What the first of the enclosing frames that has an answer answers, after some frames are
skipped. -/
def searchFrom {α : Type} (root : Frame V F) (ask : Frame V F → Option α) :
    Nat → List (Frame V F) → Option α
  | _, [] => ask root
  | 0, frame :: rest =>
      match ask frame with
      | some answer => some answer
      | none => searchFrom root ask frame.skip rest
  | skipped + 1, _ :: rest => searchFrom root ask skipped rest

/-- What the first of the enclosing frames that has an answer answers. -/
def search {α : Type} (scope : Scope V F) (ask : Frame V F → Option α) : Option α :=
  searchFrom scope.root ask 0 scope.inner

def findVariable? (scope : Scope V F) (name : String) : Option V :=
  scope.search fun frame => frame.findVariable? name

def findFunction? (scope : Scope V F) (name : String) (arity : Nat) : Option F :=
  scope.search fun frame => frame.findFunction? name arity

/-- Changes the variable that a name refers to, after some frames are skipped. -/
def updateFrom (root : Frame V F) (name : String) (change : V → V) :
    Nat → List (Frame V F) → Scope V F
  | _, [] => ⟨[], root.updateVariable name change⟩
  | 0, frame :: rest =>
      if (frame.findVariable? name).isSome then ⟨frame.updateVariable name change :: rest, root⟩
      else
        let below := updateFrom root name change frame.skip rest
        { below with inner := frame :: below.inner }
  | skipped + 1, frame :: rest =>
      let below := updateFrom root name change skipped rest
      { below with inner := frame :: below.inner }

/-- Changes the variable that a name refers to, if there is one. -/
def updateVariable (scope : Scope V F) (name : String) (change : V → V) : Scope V F :=
  updateFrom scope.root name change 0 scope.inner

end Scope

end Procedural
