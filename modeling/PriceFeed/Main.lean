import PriceFeed.Service

/-!
# Command line

Serves one session over standard input and output, for the settings in the environment. Each line
that comes in is a payload; the messages it causes are written one a line. The session ends with its
input.
-/

namespace PriceFeed

/-- The value of a result, or an end of the program with the text of its error. -/
def orFail {ε α : Type} (message : ε → String) : Except ε α → IO α
  | .ok a => return a
  | .error e => throw (IO.userError (message e))

/-- The settings in the environment of the process. -/
def loadSettings : IO Settings := do
  let values ← Settings.variableNames.mapM fun name => do return (name, ← IO.getEnv name)
  orFail SettingsError.message <|
    Settings.ofEnvironment fun name => (values.find? (·.1 = name)).bind (·.2)

/-- The registry of the catalog file at `path`. -/
def loadRegistry (path : String) : IO Registry := do
  let contents ←
    try IO.FS.readBinFile path
    catch e => throw (IO.userError (StoreError.catalogRead path (toString e)).message)
  let catalog ← orFail StoreError.message (Catalog.ofBytes path contents.toList)
  orFail RegistryError.message (Registry.ofCatalog catalog)

/-- Handles payloads of a session line by line until the input ends, for a service started at
`start`. -/
partial def serve (input output : IO.FS.Stream) (start session : Nat) (s : Service) : IO Unit := do
  let line ← input.getLine
  if line.isEmpty then return
  let s := s.jump ((← IO.monoMsNow) - start - s.now)
  let s := (s.onHub (·.handlePayload session line)).flush fun _ => true
  let (messages, hub) := s.hub.receive session (s.hub.waiting session)
  for message in messages do output.putStrLn message.render
  output.flush
  serve input output start session { s with hub }

/-- Serves one session, by the default identity. -/
def serveSession : IO Unit := do
  let settings ← loadSettings
  let service := Service.create settings (← loadRegistry settings.catalogPath)
  let (session, hub) := service.hub.openSession (settings.defaultPublisher.map (·.key))
  serve (← IO.getStdin) (← IO.getStdout) (← IO.monoMsNow) session { service with hub }

end PriceFeed

def main : IO Unit := PriceFeed.serveSession
