import ParamSync.Packet.Info

/-!
# What a server reports about itself
-/

namespace ParamSync

/-- The version that a server reports, and the application that it exposes. -/
structure Config where
  version : String := "0.1.0"
  applicationId : Option String := none
deriving DecidableEq

namespace Config

/-- The record that answers a request for the version. -/
def info (c : Config) : Info where
  version := c.version
  applicationId := c.applicationId

end Config
end ParamSync
