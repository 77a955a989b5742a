import Schemata.FileTree
import Schemata.Go.Source
import Schemata.Text.Bytes

/-!
# Writing generated files

Files go to the paths that their names make with the output setting, or, without such a setting, one after the other
to a stream. The stream may take a limited number of bytes. What has been written before a failure stays.
-/

namespace Schemata

/-- A stream that text is printed to. -/
structure Stream where
  /-- How many more bytes it takes, if there is a limit. -/
  capacity : Option Nat := none
  /-- What it has received. -/
  received : String := ""
deriving DecidableEq, Repr, Inhabited

/-- Characters up to a number of bytes. A character that is cut in two shows as the replacement character. -/
def Stream.takeBytes : Nat → List Char → List Char
  | 0, _ => []
  | _ + 1, [] => []
  | n + 1, c :: cs =>
    if c.utf8Size ≤ n + 1 then c :: Stream.takeBytes (n + 1 - c.utf8Size) cs else ['\uFFFD']
termination_by _ cs => cs.length

/-- Print a text, and tell whether the stream took all of it. -/
def Stream.print (s : Stream) (text : String) : Stream × Bool :=
  match s.capacity with
  | none => ({ s with received := s.received ++ text }, true)
  | some n =>
    if Text.byteLength text ≤ n then
      ({ capacity := some (n - Text.byteLength text), received := s.received ++ text }, true)
    else
      ({ capacity := some 0, received := s.received ++ String.ofList (Stream.takeBytes n text.toList) }, false)

/-- Why a file is not written. -/
inductive WriteError where
  /-- The path cannot be written. -/
  | io (path : String) (fault : FileFault)
  /-- The stream takes no more. -/
  | stream (file : String)
deriving DecidableEq, Repr

namespace WriteError

/-- The cause behind an error, in words. -/
def source : WriteError → String
  | .io _ fault => fault.message
  | .stream _ => "broken pipe"

/-- What an error says. -/
def message : WriteError → String
  | .io path fault => "failed to write file " ++ path ++ ": " ++ fault.message
  | .stream file => "failed to write " ++ file ++ " to output stream: broken pipe"

end WriteError

/-- Where files are written to. -/
structure Output where
  /-- The files. -/
  files : FileTree := {}
  /-- The stream. -/
  stream : Stream := {}
deriving Inhabited

namespace Output

/-- Write a file at a path, with the directories above it. -/
def writeAt (t : FileTree) (path text : String) : Except WriteError FileTree := do
  let t ←
    match Path.parent? path with
    | some directory =>
      if directory.isEmpty then pure t
      else (t.makeDirectories directory).mapError (.io directory)
    | none => pure t
  (t.write path text).mapError (.io path)

/-- Write files, in order. The paths that were written are returned, in order. -/
def write (output : String) : List Go.SourceFile → Output → Output × List Event × Except WriteError (List String)
  | [], o => (o, [], .ok [])
  | file :: rest, o =>
    match file.path? output with
    | some path =>
      match writeAt o.files path file.content with
      | .error e => (o, [], .error e)
      | .ok files =>
        let (o, events, result) := write output rest { o with files }
        (o, .wroteFile path file.package :: events, result.map (path :: ·))
    | none =>
      let (stream, complete) := o.stream.print file.content
      if complete then write output rest { o with stream }
      else ({ o with stream }, [], .error (.stream file.name))

end Output

end Schemata
