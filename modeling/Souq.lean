import Souq.Orders.Arming
import Souq.Orders.Firing
import Souq.Orders.Settlement
import Souq.Orders.WriteSkew
import Souq.Checkout.Cancelled
import Souq.Checkout.Expiry
import Souq.Inventory.Ledger
import Souq.Inventory.Tombstone
import Souq.Inventory.Locking
import Souq.Inventory.Consumer
import Souq.Orders.Consumer
import Souq.Checkout.Sides
import Souq.Checkout.Storable
import Souq.Orders.OneFact
import Souq.Payments.AtMostOnce
import Souq.Orders.Publication
import Souq.Catalog.Admins
import Souq.Identity.Revocations
import Souq.Identity.Lockout
import Souq.Identity.Published
import Souq.Identity.Rotation
import Souq.Catalog.Availability
import Souq.Catalog.Compaction
import Souq.Reviews.Purchases
import Souq.Reviews.Moderators
import Souq.Notifications.Once
import Souq.Search.Documents
import Souq.Search.Offsets
import Souq.Orders.Totals
import Souq.Orders.Relay
import Souq.Orders.Reasons
import Souq.Orders.Sweep
import Souq.Orders.HashRequest
import Souq.Inventory.AllOrNothing
import Souq.Inventory.Replies
import Souq.Search.Catalogue
import Souq.Paymob.Shapes
import Souq.Paymob.Inquiry
import Souq.Payments.CaptureCalls
import Souq.Payments.Notices
import Souq.Payments.Reemission
import Souq.Orders.Pages
import Souq.Pricing.Shares
import Souq.Pricing.Coupons
import Souq.Pricing.Cursor
import Souq.Pricing.Faithful
import Souq.Pricing.Neighbours
import Souq.Pricing.Overflow
import Souq.Carts.PricingClient
import Souq.ModelCheck.Shortest
import Souq.ModelCheck.Bounds
import Souq.Identity.Amr
import Souq.Identity.RecoveryCodes
import Souq.Identity.SingleUse
import Souq.Orders.Stampede
import Souq.Carts.Confined
import Souq.Carts.Price
import Souq.Pricing.BasisPoints
import Souq.Payments.ProviderKeys
import Souq.Identity.Base32
import Souq.Identity.ClientAddress
import Souq.Catalog.Lookup
import Souq.Reviews.Pages
import Souq.Search.Reindex
import Souq.Carousels.WellFormed
