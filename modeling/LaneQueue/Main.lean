import LaneQueue.Http.Api
import LaneQueue.Server.Startup
/-!
# The server program

Starts a server by the command line and the environment and answers the requests that come in,
one a line: a method and an address. The end of the input is the signal to shut down. All that is
decided is decided elsewhere; here is only the reading and printing.
-/
namespace LaneQueue.Server

/-- An answer as one line. -/
def responseLine (r : Http.Response) (headOnly : Bool) : String :=
  let body := match headOnly, r.content with
    | false, .json v => " " ++ v.render
    | false, .text s => " " ++ s
    | _, _ => ""
  HttpStatus.render r.status ++ body

/-- Answers one request and lets the lanes run. -/
def Running.answer (s : Running) (method address : String) : String × Running :=
  let service := Http.serve method address
  match service.plan with
  | .error r => (responseLine r service.headOnly, s)
  | .ok (_, requests) =>
    let (last, r) := s.run.performAll requests
    (responseLine (service.respond last) service.headOnly, { s with run := r.rest })

/-- Answers the requests on the input until it ends. -/
partial def serveLines (input output : IO.FS.Stream) (s : Running) : IO Running := do
  let line ← input.getLine
  if line.isEmpty then return s
  match line.trimAscii.toString.splitOn " " with
  | [method, address] =>
    let (text, s) := s.answer method address
    output.putStrLn text
    output.flush
    serveLines input output s
  | _ => serveLines input output s

end LaneQueue.Server

open LaneQueue Server in
def main (args : List String) : IO UInt32 := do
  let mut found : EnvFile.Variables := []
  for name in Environment.names do
    if let some value ← IO.getEnv name then
      found := found ++ [(name, value)]
  let now : Instant := (← IO.monoMsNow)
  let output ← IO.getStdout
  let report ← match start args { environment := found, now := now, listens := isLoopback } with
    | .error report => do
      report.log.forM output.putStrLn
      pure report
    | .ok s => do
      s.log.forM output.putStrLn
      output.flush
      let report := (← serveLines (← IO.getStdin) output s).stop
      (report.log.drop s.log.length).forM output.putStrLn
      pure report
  if let some text := report.error then
    (← IO.getStderr).putStrLn text
  return UInt32.ofNat report.code
