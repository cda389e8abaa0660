import SocketRpc.Client.Session
import SocketRpc.CommandLine.Parse

namespace SocketRpc.CommandLine

structure Report where
  exitCode : Nat
  stdout : List UInt8
  stderr : String
  sent : Option (List UInt8)

def Arguments.request (a : Arguments) : Except ClientError Request := do
  let bare ← Request.checked a.method a.params
  let versioned := if a.jsonrpc then bare.withVersion else bare
  return match a.id with
    | some id => versioned.withId id
    | none => versioned

def line (text : List UInt8) : List UInt8 := text ++ [Ascii.newline]

def Report.ofError (error : ClientError) (sent : Option (List UInt8)) : Report where
  exitCode := error.kind.exitCode
  stdout := []
  stderr := "error (" ++ error.kind.name ++ "): " ++ error.message ++ "\n"
  sent

def Report.ofExchange (e : Exchange) : Report :=
  match e.answer with
  | .error error => .ofError error e.sent
  | .ok value => ⟨0, line value.pretty, "", e.sent⟩

def Arguments.prepare (a : Arguments) : Except ClientError (Request × Client) := do
  let request ← a.request
  let client ← Client.build a.settings a.host a.port
  return (request, client)

def run (network : Network) (a : Arguments) : Report :=
  match a.prepare with
  | .error error => .ofError error none
  | .ok (request, client) =>
    let body := request.toJson.write
    let report := Report.ofExchange (client.exchange network body)
    { report with stdout := line body ++ report.stdout }

def versionText : String := "tcp-jsonrpc 0.1.0\n"

def helpText : String :=
  "Send one JSON-RPC request over TCP and print the reply\n\n" ++
  "Usage: tcp-jsonrpc [OPTIONS] <METHOD>\n"

def Report.ofStop : Stop → Report
  | .version => ⟨0, Utf8.bytes versionText, "", none⟩
  | .help => ⟨0, Utf8.bytes helpText, "", none⟩
  | .usage error => ⟨2, [], "error: " ++ error.message ++ "\n", none⟩

def program (environment : String → Option String) (network : Network) (arguments : List String) :
    Report :=
  match parse environment arguments with
  | .error stop => .ofStop stop
  | .ok arguments => run network arguments

end SocketRpc.CommandLine
