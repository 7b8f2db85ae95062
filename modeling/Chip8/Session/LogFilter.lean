import Chip8.Session.Notice
/-!
# LogFilter — which notices are written

What surrounds a run can ask for its notices: from some level on, and for sources whose names begin in some way from
another one.  It can also ask for those only whose text fits a pattern.  Where it asks for nothing, none is written; to
debug a run is to ask for all that no name is given for.

A filter is written as parts with commas between them, each a level, a name, or a name and a level with an equals sign
between them, and perhaps a pattern behind a slash.
-/
namespace Chip8

structure LogFilter where
  /-- the least level that is written, or nothing, of sources that no name is given for -/
  root : Option Level := none
  /-- how names begin, and the least level that is written of them, or nothing -/
  named : List (String × Option Level) := []
  pattern : String → Bool := fun _ => true
  /-- what is written first, where parts of the filter could not be read -/
  warning : String := ""

namespace LogFilter

/-- The least level of a source, by the longest name that it begins with. -/
def levelOf (f : LogFilter) (source : String) : Option Level :=
  let fitting := f.named.filter fun d => d.1.toList.isPrefixOf source.toList
  (fitting.maxOn? (·.1.length)).elim f.root (·.2)

def shows (f : LogFilter) (n : Notice) : Bool :=
  (f.levelOf n.source).any (·.rank ≤ n.level.rank) && f.pattern n.message

def withDebug (f : LogFilter) (debug : Bool) : LogFilter :=
  if debug then { f with root := some .trace } else f

/-! ## Reading a filter -/

/-- Errors are no notices, so to ask for these is to ask for nothing. -/
def levelNamed? (s : String) : Option (Option Level) :=
  match s.toLower with
  | "off" | "error" => some none
  | "warn" => some (some .warn)
  | "info" => some (some .info)
  | "debug" => some (some .debug)
  | "trace" => some (some .trace)
  | _ => none

/-- A name that is given again has its last level. -/
def setNamed (f : LogFilter) (name : String) (level : Option Level) : LogFilter :=
  { f with named := f.named.filter (·.1 != name) ++ [(name, level)] }

def warn (f : LogFilter) (part reason : String) : LogFilter :=
  { f with warning := f.warning ++ "warning: invalid logging spec '" ++ part ++ "', ignoring it" ++ reason ++ "\n" }

def readPart (f : LogFilter) (part : String) : LogFilter :=
  match part.splitOn "=" with
  | [""] => f
  | [s] => (levelNamed? s).elim (f.setNamed s (some .trace)) fun level => { f with root := level }
  | [name, s] =>
    let s := s.trimAscii.toString
    if s.isEmpty then f.setNamed name (some .trace)
    else (levelNamed? s).elim (f.warn s "") (f.setNamed name)
  | _ => f.warn part ""

def readParts (s : String) : LogFilter :=
  ((s.splitOn ",").map (·.trimAscii.toString)).foldl readPart {}

/-- The filter of a text; what fits a pattern is known outside. -/
def ofText (fits : String → String → Bool) (s : String) : LogFilter :=
  match s.splitOn "/" with
  | [parts] => readParts parts
  | [parts, pattern] => { readParts parts with pattern := fits pattern }
  | _ => warn {} s " (too many '/'s)"

end LogFilter

end Chip8
