import WidgetMarkup.Diagnostic
import WidgetMarkup.Json.Quoted
import WidgetMarkup.Json.Record

namespace WidgetMarkup

open Json

namespace SourceFile

def read : Reader SourceFile :=
  record
    [.of "content" string (fun d : Option String × Option String => d.1)
        (fun d s => (some s, d.2)),
      .of "url" string (fun d => d.2) (fun d s => (d.1, some s))]
    (none, none)
    fun (content, url) => do some ⟨← content, ← url⟩

def json (f : SourceFile) : String :=
  "\x7b\"content\":" ++ quote f.content ++ ",\"url\":" ++ quote f.url ++ "\x7d"

end SourceFile

namespace Location

structure Draft where
  file : Option SourceFile := none
  offset : Option UInt64 := none
  line : Option UInt64 := none
  col : Option UInt64 := none

def read : Reader Location :=
  record
    [.of "file" SourceFile.read Draft.file (fun d f => { d with file := some f }),
      .of "offset" word Draft.offset (fun d n => { d with offset := some n }),
      .of "line" word Draft.line (fun d n => { d with line := some n }),
      .of "col" word Draft.col (fun d n => { d with col := some n })]
    {}
    fun d => do some ⟨← d.file, ← d.offset, ← d.line, ← d.col⟩

def json (l : Location) : String :=
  "\x7b\"file\":" ++ l.file.json ++ ",\"offset\":" ++ toString l.offset.toNat ++
    ",\"line\":" ++ toString l.line.toNat ++ ",\"col\":" ++ toString l.col.toNat ++ "\x7d"

end Location

namespace Span

def read : Reader Span :=
  record
    [.of "start" Location.read (fun d : Option Location × Option Location => d.1)
        (fun d l => (some l, d.2)),
      .of "end" Location.read (fun d => d.2) (fun d l => (d.1, some l))]
    (none, none)
    fun (start, stop) => do some ⟨← start, ← stop⟩

def json (s : Span) : String :=
  "\x7b\"start\":" ++ s.start.json ++ ",\"end\":" ++ s.stop.json ++ "\x7d"

end Span

namespace Level

def jsonName : Level → String
  | warning => "Warning"
  | error => "Error"

def ofName : String → Except Failure Level
  | "Warning" => .ok .warning
  | "Error" => .ok .error
  | _ => .error .mismatch

/-- A level is its name, or an object with the name as key of a null. A key that is no string is
ill-formed, as in a record, and not a name of the wrong kind. -/
def read : Reader Level := fun s =>
  match skipSpace s with
  | [] => .error .truncated
  | c :: s =>
    if c = '\x22' then do
      let (name, s) ← string (c :: s)
      .ok (← ofName name, s)
    else if c = '\x7b' then do
      let s ← nextKey s
      let (name, s) ← string s
      let level ← ofName name
      let s ← colon s
      let (_, s) ← null s
      match skipSpace s with
      | [] => .error .truncated
      | c :: s => if c = '\x7d' then .ok (level, s) else .error .illFormed
    else .error .illFormed

end Level

namespace Diagnostic

structure Draft where
  span : Option (Option Span) := none
  message : Option String := none
  level : Option Level := none

def read : Reader Diagnostic :=
  record
    [.of "span" (nullable Span.read) Draft.span (fun d s => { d with span := some s }),
      .of "msg" string Draft.message (fun d s => { d with message := some s }),
      .of "level" Level.read Draft.level (fun d l => { d with level := some l })]
    {}
    fun d => do some ⟨d.span.join, ← d.message, ← d.level⟩

def ofJson (s : String) : Except Failure Diagnostic := readAll read s

def json (d : Diagnostic) : String :=
  "\x7b\"span\":" ++ (d.span.map Span.json).getD "null" ++ ",\"msg\":" ++ quote d.message ++
    ",\"level\":" ++ quote d.level.jsonName ++ "\x7d"

end Diagnostic
end WidgetMarkup
