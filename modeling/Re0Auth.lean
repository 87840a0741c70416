import Re0Auth.Postgres.Revocation
import Re0Auth.Memory.SwitchOff
import Re0Auth.OAuth.Closure
import Re0Auth.Federation.Rejection
import Re0Auth.Vault.Gate
import Re0Auth.Federation.Keyed
import Re0Auth.Federation.Superseded
import Re0Auth.Memory.Precision
import Re0Auth.Memory.Families
import Re0Auth.OAuth.Shape
import Re0Auth.OAuth.DeviceGrant
import Re0Auth.Core.Shutdown
import Re0Auth.DataPlane.Budget
import Re0Auth.DataPlane.Gate
import Re0Auth.Lifecycle.Protocol
import Re0Auth.Memory.Bulk
import Re0Auth.Memory.Rotation
import Re0Auth.Memory.Decision
import Re0Auth.Oidc.Redirects
import Re0Auth.OAuth.Refused
import Re0Auth.Federation.RawPath
import Re0Auth.Oidc.Credentials
import Re0Auth.Postgres.AuditChain
import Re0Auth.HttpApi.InFlight
import Re0Auth.HttpApi.ClientAddr
import Re0Auth.HttpApi.Inputs
import Re0Auth.RateLimit.Limiter
