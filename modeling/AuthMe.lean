import AuthMe.Transition.Run
import AuthMe.Transition.Epoch
import AuthMe.Collections.OrderedMap
import AuthMe.Collections.Table
import AuthMe.Collections.RingBuffer
import AuthMe.Collections.Additions
import AuthMe.Basic
import AuthMe.Service.Pool
import AuthMe.Text
import AuthMe.Admin.Console
import AuthMe.Adapters.Record
import AuthMe.Adapters.Parameters
import AuthMe.Adapters.Postgres
import AuthMe.Adapters.PostgresRun
import AuthMe.Adapters.PostgresStep
import AuthMe.Adapters.PostgresOneUse
import AuthMe.Adapters.PostgresEpoch
import AuthMe.Adapters.AccountEpoch
import AuthMe.Adapters.Revocation
import AuthMe.Adapters.Memory
import AuthMe.Adapters.MemoryStep
import AuthMe.Adapters.MemoryOneUse
import AuthMe.Adapters.MemoryEpoch
import AuthMe.Service.Program
import AuthMe.Store.User
import AuthMe.Store.Admin
import AuthMe.Admin.Session
import AuthMe.Admin.SessionRun
import AuthMe.Http.Path
import AuthMe.Admin.Routes
import AuthMe.Admin.Agreement
import AuthMe.Admin.Authorization
import AuthMe.Store.Factor
import AuthMe.Store.FactorRun
import AuthMe.Store.WebAuthn
import AuthMe.Login.State
import AuthMe.Login.Routes
import AuthMe.Login.Spec
import AuthMe.Login.Fresh
import AuthMe.Login.Accounts
import AuthMe.Login.Password
import AuthMe.Login.Passkey
import AuthMe.Login.Saml
import AuthMe.Login.States
import AuthMe.Login.Federation
import AuthMe.Login.Lockout
import AuthMe.Audit.Writer
import AuthMe.Audit.WriterStep
import AuthMe.Audit.WriterRun
import AuthMe.DataLayer.Development
import AuthMe.DataLayer.MutationSpec
import AuthMe.DataLayer.Writes
import AuthMe.DataLayer.Rollback
import AuthMe.DataLayer.Isolation
import AuthMe.DataLayer.Tables
import AuthMe.DataLayer.Atomicity
import AuthMe.Scim.Value
import AuthMe.Scim.Attributes
import AuthMe.Scim.Rows
import AuthMe.Scim.Membership
import AuthMe.Scim.Literal
import AuthMe.Scim.Filter
import AuthMe.Scim.Listing
import AuthMe.Migrations.Manifest
import AuthMe.Migrations.Runner
import AuthMe.Migrations.RunnerRun
import AuthMe.Scim.ListingAgree
import AuthMe.Scim.Patch
import AuthMe.Scim.PatchFrame
import AuthMe.Scim.PatchAdd
import AuthMe.Scim.Normal
import AuthMe.Scim.NoOp
import AuthMe.Transition.RowLock
import AuthMe.Passwords.Requests
import AuthMe.Passwords.Spec
import AuthMe.Passwords.Owner
import AuthMe.Passwords.LastWins
import AuthMe.Store.Lockout
import AuthMe.Login.ReplayWindow
import AuthMe.Federation.Profile
import AuthMe.Login.Assurance
import AuthMe.Ldap.Grammar
import AuthMe.Ldap.Search
import AuthMe.Scim.JsonString
import AuthMe.Scim.LiteralExact
import AuthMe.DataLayer.LoginNames
import AuthMe.DataLayer.Namespace
import AuthMe.Federation.ReplayCache
import AuthMe.Federation.ReplayAgree
import AuthMe.Audit.Promises
import AuthMe.Xml.Document
import AuthMe.Federation.Envelope
import AuthMe.Federation.EnvelopeQuotes
import AuthMe.Federation.EnvelopeRoot
import AuthMe.Federation.EnvelopeRead
import AuthMe.Audit.Sampling
import AuthMe.Provider.Resources
import AuthMe.Encoding.Base64
import AuthMe.Crypto.Csrf
import AuthMe.Crypto.CsrfTokens
import AuthMe.Federation.KeyedLock
import AuthMe.Federation.KeyedLockProgress
import AuthMe.Scim.JsonArray
import AuthMe.Federation.Identities
import AuthMe.Ldap.Names
import AuthMe.Ldap.Groups
import AuthMe.Ldap.GroupNames
import AuthMe.Transition.Transaction
import AuthMe.Scim.Transactions
import AuthMe.Scim.GroupRevocation
import AuthMe.Scim.Accounts
import AuthMe.Transition.Versioned
import AuthMe.Scim.Versions
import AuthMe.Scim.Columns
import AuthMe.Scim.WriteBack
import AuthMe.Scim.RoundTrip
import AuthMe.Transition.Refine
import AuthMe.Adapters.Shelf
import AuthMe.Adapters.MemoryShelf
import AuthMe.Adapters.PostgresShelf
import AuthMe.Adapters.Agreement
import AuthMe.Service.Conditional
import AuthMe.Service.Fallible
import AuthMe.Scim.Routes
import AuthMe.Scim.ConditionalWrites
import AuthMe.Scim.MemoryRepository
import AuthMe.Scim.PostgresRepository
import AuthMe.Service.Locks
import AuthMe.Federation.Mapping
import AuthMe.Federation.MemoryMapping
import AuthMe.Federation.MemoryMappingSpec
import AuthMe.Federation.MemoryMappingRun
import AuthMe.Federation.MemoryMappingLaws
