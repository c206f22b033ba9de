import SuperScalar.Ctv.ScriptPath
import SuperScalar.Ctv.Funding
import SuperScalar.Dw.Count
import SuperScalar.Factory.Lookup
import SuperScalar.Peer.UpdateFee
import SuperScalar.Lsp.Refusal
import SuperScalar.Lsp.Placement
import SuperScalar.Lsp.Fees
import SuperScalar.Lsp.Solvency
import SuperScalar.Lsp.Purchase
import SuperScalar.Factory.Failures
import SuperScalar.Factory.ChainReset
import SuperScalar.Factory.Poison
import SuperScalar.Client.Close
import SuperScalar.Factory.EarlyWarning
import SuperScalar.Lsp.PayResults
import SuperScalar.Lsp.Reload
import SuperScalar.Node.Matching
import SuperScalar.Factory.Agreement
import SuperScalar.Node.Closing
import SuperScalar.Invoice.Payee
import SuperScalar.Invoice.RoundTrip
import SuperScalar.Wire.Encrypted
import SuperScalar.Lsp.JitPurchase
import SuperScalar.Wallet.Hd
import SuperScalar.Node.Splicing
import SuperScalar.Channel.Reserve
import SuperScalar.Lsp.FeeCap
import SuperScalar.Lsp.Readiness
import SuperScalar.Net.Broadcast
import SuperScalar.Net.RateLimit
import SuperScalar.Peer.Features
import SuperScalar.Peer.RemotePoints
