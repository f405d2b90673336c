import Mathlib.Data.List.FinRange
import Mathlib.Data.List.ProdSigma
import Steel.Lib.Vec
import Steel.Utils.Types

/-!
# Paletted containers

A cube of values, with a palette that counts how often each value occurs. A cube of one value keeps
only that value. While a chunk is generated, a container may be a bare cube without a palette.
-/

namespace Steel

open Function

abbrev CubePos (dim : ℕ) := Fin dim × Fin dim × Fin dim

abbrev Cube (V : Type) (dim : ℕ) := CubePos dim → V

def CubePos.all (dim : ℕ) : List (CubePos dim) :=
  List.finRange dim ×ˢ List.finRange dim ×ˢ List.finRange dim

def Cube.values {V : Type} {dim : ℕ} (cube : Cube V dim) : List V := (CubePos.all dim).map cube

/-- Distinct values with the number of cells that hold them. -/
abbrev Palette (V : Type) := List (V × ℕ)

namespace Palette

variable {V : Type} [DecidableEq V]

def addCells (palette : Palette V) (value : V) (count : ℕ) : Palette V :=
  match palette.findIdx? fun entry => entry.1 = value with
  | some index => palette.modify index fun entry => (entry.1, addU16 entry.2 count)
  | none => palette ++ [(value, count)]

/-- Count one cell less of a value; an entry that reaches zero is removed. -/
def removeCell (palette : Palette V) (value : V) : Palette V :=
  match palette.findIdx? fun entry => entry.1 = value with
  | none => palette
  | some index =>
    let palette := palette.modify index fun entry => (entry.1, predU16 entry.2)
    match palette[index]? with
    | some (_, 0) => Vec.swapRemove palette index
    | _ => palette

/-- Count the rest of a flat cube, with `runLen` cells of a value just passed. -/
def countRuns (palette : Palette V) (value : V) (runLen : ℕ) : List V → Palette V
  | [] => palette.addCells value (runLen % 65536)
  | next :: rest =>
    if next = value then countRuns palette value (runLen + 1) rest
    else countRuns (palette.addCells value (runLen % 65536)) next 1 rest

def ofValues : List V → Palette V
  | [] => []
  | first :: rest => countRuns [] first 1 rest

end Palette

structure HeterogeneousPalette (V : Type) (dim : ℕ) where
  cube : Cube V dim
  palette : Palette V

namespace HeterogeneousPalette

variable {V : Type} [DecidableEq V] {dim : ℕ}

def set (data : HeterogeneousPalette V dim) (pos : CubePos dim) (value : V) :
    V × HeterogeneousPalette V dim :=
  let oldValue := data.cube pos
  (oldValue,
    { cube := update data.cube pos value
      palette := (data.palette.addCells value 1).removeCell oldValue })

end HeterogeneousPalette

inductive PalettedContainer (V : Type) (dim : ℕ) where
  | homogeneous (value : V)
  | heterogeneous (data : HeterogeneousPalette V dim)
  | building (cube : Cube V dim)

namespace PalettedContainer

variable {V : Type} [DecidableEq V] {dim : ℕ}

def ofPalette (cube : Cube V dim) (palette : Palette V) : PalettedContainer V dim :=
  match palette with
  | [(value, _)] => .homogeneous value
  | _ => .heterogeneous { cube, palette }

def fromCube (cube : Cube V dim) : PalettedContainer V dim := ofPalette cube (.ofValues cube.values)

variable (container : PalettedContainer V dim)

omit [DecidableEq V] in
def get (pos : CubePos dim) : V :=
  match container with
  | .homogeneous value => value
  | .heterogeneous data => data.cube pos
  | .building cube => cube pos

omit [DecidableEq V] in
def enterBuildingMode : PalettedContainer V dim → PalettedContainer V dim
  | .building cube => .building cube
  | .homogeneous value => .building fun _ => value
  | .heterogeneous data => .building data.cube

def finalizeBuilding : PalettedContainer V dim → PalettedContainer V dim
  | .building cube => fromCube cube
  | container => container

def set (pos : CubePos dim) (value : V) : V × PalettedContainer V dim :=
  match container with
  | .homogeneous original =>
    if value = original then (original, .homogeneous original)
    else (original, fromCube (update (fun _ => original) pos value))
  | .heterogeneous data =>
    let (original, data) := data.set pos value
    (original, ofPalette data.cube data.palette)
  | .building cube => (cube pos, .building (update cube pos value))

omit [DecidableEq V] in
/-- Whether a cell may match: only the palette is looked at, if there is one. -/
def maybeHas (predicate : V → Bool) : Bool :=
  match container with
  | .homogeneous value => predicate value
  | .heterogeneous data => data.palette.any fun entry => predicate entry.1
  | .building cube => cube.values.any predicate

end PalettedContainer

end Steel
