import PqcReadiness.Lib.Dict
import PqcReadiness.Lib.Text
import PqcReadiness.Lib.IpAddress
import PqcReadiness.Lib.Schema
import PqcReadiness.Lib.Postings
import PqcReadiness.Lib.Loop
import PqcReadiness.Lib.Pathname
import PqcReadiness.Platform.HostPath
import PqcReadiness.Platform.Containment
import PqcReadiness.Report
import PqcReadiness.Gap.Protocols
import PqcReadiness.Gap.Services
import PqcReadiness.Gap.Clients
import PqcReadiness.Gap.Accounting
import PqcReadiness.Gap.Order
import PqcReadiness.Gap.GoBinary
import PqcReadiness.Observations.Record
import PqcReadiness.Observations.Schema
import PqcReadiness.Observations.Classify
import PqcReadiness.Observations.Index
import PqcReadiness.Observations.Join
import PqcReadiness.Observations.Conservation
import PqcReadiness.Observations.Attribution
import PqcReadiness.Observations.Endpoints
import PqcReadiness.Observations.Load
import PqcReadiness.Aggregate
import PqcReadiness.Signing.Inventory
import PqcReadiness.Ike.Proposals
import PqcReadiness.Config.Sshd
import PqcReadiness.Config.OpenSsh
import PqcReadiness.Config.SshdPlain
import PqcReadiness.Config.SshdEffective
import PqcReadiness.Packages.Ndb
import PqcReadiness.Packages.HashImage
import PqcReadiness.Certs.TrustStore
import PqcReadiness.Runtime.Robust
import PqcReadiness.Runtime.Groups
import PqcReadiness.Runtime.Namespaces
import PqcReadiness.Certs.Agreement
import PqcReadiness.Certs.RoundTrip
import PqcReadiness.Certs.Names
import PqcReadiness.Certs.Keystore
import PqcReadiness.Boot.SignatureLists
import PqcReadiness.Dnssec.NamedConf
import PqcReadiness.Dnssec.Layout
import PqcReadiness.Dnssec.Exactness
import PqcReadiness.Packages.RpmHeader
import PqcReadiness.Config.GroupLists
import PqcReadiness.Config.Tls13
import PqcReadiness.Config.Nginx
import PqcReadiness.Gap.Findings
import PqcReadiness.Gap.Consistency
import PqcReadiness.Kerberos.Precedence
import PqcReadiness.Kerberos.Keytab
import PqcReadiness.Bom.Join
import PqcReadiness.Bom.Integrity
import PqcReadiness.Config.Readers
import PqcReadiness.Config.Inheritance
import PqcReadiness.Config.Placement
import PqcReadiness.Config.Instances
import PqcReadiness.Signing.Armor
import PqcReadiness.Signing.Spki
import PqcReadiness.Findings.Report
import PqcReadiness.Findings.Host
import PqcReadiness.Kerberos.Enctypes
import PqcReadiness.Lib.History
import PqcReadiness.Gap.Godebug
import PqcReadiness.Ike.Negotiation
import PqcReadiness.Ike.Swanctl
import PqcReadiness.Ike.SwanctlText
import PqcReadiness.Lib.Chains
import PqcReadiness.Runtime.Needed
import PqcReadiness.Platform.Release
import PqcReadiness.Lib.Stanzas
import PqcReadiness.Packages.DpkgStatus
import PqcReadiness.Packages.ApkInstalled
import PqcReadiness.Runtime.Workers
import PqcReadiness.Lib.Folder
import PqcReadiness.Output.Atomic
import PqcReadiness.Lib.Varint
import PqcReadiness.Runtime.GoBuild
import PqcReadiness.Runtime.Elf
import PqcReadiness.Runtime.ElfImage
import PqcReadiness.Runtime.OpenSshBuild
import PqcReadiness.Findings.Alerts
import PqcReadiness.Spdx.Identity
import PqcReadiness.Bom.Completeness
import PqcReadiness.Bom.Distinct
