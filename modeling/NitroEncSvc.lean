import NitroEncSvc.Str
import NitroEncSvc.ExceptList
import NitroEncSvc.Json
import NitroEncSvc.Base64
import NitroEncSvc.Cipher
import NitroEncSvc.PathTraversal
import NitroEncSvc.Dek
import NitroEncSvc.PiiFields
import NitroEncSvc.OpenApi
import NitroEncSvc.Resolver
import NitroEncSvc.PathCodec
import NitroEncSvc.Coverage
import NitroEncSvc.Config
import NitroEncSvc.Vsock
import NitroEncSvc.Schemas
import NitroEncSvc.Handlers
import NitroEncSvc.Service
import NitroEncSvc.Interleaving
import NitroEncSvc.Proxy
import NitroEncSvc.Metrics
