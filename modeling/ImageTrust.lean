import ImageTrust.Assertion.Signer
import ImageTrust.Audit.Sink
import ImageTrust.Base64
import ImageTrust.Clock.Timestamp
import ImageTrust.Command.Run
import ImageTrust.Config.Load
import ImageTrust.Main
import ImageTrust.Policy.KeyTransfer
import ImageTrust.Policy.Report
import ImageTrust.Proofs.Assertion.Coverage
import ImageTrust.Proofs.Assertion.Signer
import ImageTrust.Proofs.Policy.FlavorBinding
import ImageTrust.Proofs.Release.HostBinding
import ImageTrust.Proofs.Release.Provenance
import ImageTrust.Proofs.Signature.Exact
import ImageTrust.Proofs.Signature.Idempotent
import ImageTrust.Proofs.Trust.FlavorVerdict
import ImageTrust.Proofs.Xml.Binding
import ImageTrust.Proofs.Xml.Order
import ImageTrust.Proofs.Xml.Reads
import ImageTrust.Proofs.Xml.Rereading
import ImageTrust.Proofs.Xml.Shape
import ImageTrust.Release.Gate
import ImageTrust.Service.Attestation
import ImageTrust.Service.Broker
import ImageTrust.Toml.Decode
import ImageTrust.Trust.Evaluation
import ImageTrust.Trust.FlavorSigner
import ImageTrust.Url.Parse
import ImageTrust.Uuid
import ImageTrust.Proofs.Release.Atomicity
import ImageTrust.Proofs.Release.InputFault
import ImageTrust.Proofs.Release.KeySecrecy
import ImageTrust.Proofs.Url.Segment
import ImageTrust.Proofs.Release.BrokerAddress
import ImageTrust.Proofs.Release.Purging
import ImageTrust.Proofs.Uuid
import ImageTrust.Proofs.Trust.InstanceVerdict
import ImageTrust.Proofs.Policy.RoundTrip
import ImageTrust.Proofs.Json.Printable
import ImageTrust.Proofs.Command.FailClosed
import ImageTrust.Proofs.X509.Ascent
import ImageTrust.Proofs.Signature.OneReading
import ImageTrust.Proofs.Signature.Removal
import ImageTrust.Proofs.Signature.Namespaces
import ImageTrust.Proofs.X509.Visits
import ImageTrust.Proofs.Http.WholeBody
import ImageTrust.Proofs.Service.Answer
import ImageTrust.Proofs.Service.ReportAddress
import ImageTrust.Proofs.Files.Listing
import ImageTrust.Proofs.Trust.SignerFiles
import ImageTrust.Proofs.Config.Usable
import ImageTrust.Proofs.Service.ClientUrl
import ImageTrust.Proofs.Assertion.SignerCertificate
import ImageTrust.Proofs.Policy.Content
import ImageTrust.Proofs.Audit.Log
import ImageTrust.Proofs.X509.Roots
import ImageTrust.Proofs.Assertion.Attributes
